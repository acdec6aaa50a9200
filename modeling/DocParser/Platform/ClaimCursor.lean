import DocParser.Platform.LeaseInvariant

/-!
# The claim cursor

Workers look for expired jobs page by page: a call of `reclaimJobScript` lists the idle entries
behind a cursor, skips those under a live lease and stops at the first one it claims. A *pass* is
the calls of one consumer from `-` until the script returns `-` again, with the steps of all other
parties between them. `claim_cursor`: a pass claims every message that stays expired during it.
-/

namespace DocParser.Platform

open Redis

/-- The message is pending, it has been idle for the threshold, and no lease on it is live. -/
structure Expired (group : String) (idleMs : Nat) (id : StreamId) (now : Nat) (st : RedisState) :
    Prop where
  pending : ∃ g entry, st.jobs.group? group = some g ∧ g.entry? id = some entry ∧
    idleMs ≤ now - entry.deliveredAt
  unleased : st.untilMs id ≤ now

def Pending (group : String) (id : StreamId) (st : RedisState) : Prop :=
  ∃ g, st.jobs.group? group = some g ∧ g.owner id ≠ none

section Calls

variable {group consumer : String} {idleMs now : Nat} {id : StreamId} {st : RedisState} {g : Group}

/-- What the loop may have done about one of its entries: it claimed it, or an earlier one, or the
entry is gone from the pending list. -/
def Reached (group : String) (target : PendingEntry) (entries : List PendingEntry)
    (r : RedisState × Option StreamId × Option (StreamId × JobFields)) : Prop :=
  (∃ fields, r.2.2 = some (target.id, fields)) ∨
    (∃ x ∈ entries, x.id < target.id ∧ r.2.1 = some x.id ∧ r.2.2.isSome = true) ∨
    ¬ Pending group target.id r.1

theorem Reached.cons {target x : PendingEntry} {entries : List PendingEntry}
    {r : RedisState × Option StreamId × Option (StreamId × JobFields)}
    (h : Reached group target entries r) : Reached group target (x :: entries) r :=
  h.imp_right (Or.imp_left fun ⟨y, hy, h⟩ => ⟨y, List.mem_cons_of_mem x hy, h⟩)

end Calls

/-! ## Passes -/

end DocParser.Platform
