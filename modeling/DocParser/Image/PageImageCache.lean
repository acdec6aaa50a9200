import DocParser.Document.Model
import DocParser.Lib.Totals
import DocParser.Lib.Transition

/-!
# The cache of page images

The cache holds the rendered pixels of a page, or the decoded or converted image that replaces
them, within a number of bytes. `cache_budget`: in every reachable state the counter of resident
bytes is the sum over the entries, and no subtraction wraps.
-/

namespace DocParser.Image

open Document Totals

abbrev Byte := UInt8

/-- `std::size_t` -/
abbrev SizeT := BitVec 64

/-- `std::max` -/
def stdMax (a b : SizeT) : SizeT := if a < b then b else a

/-! ## Images -/

/-- A vector of bytes; moving it keeps its capacity. -/
structure PixelVector where
  pixels : List Byte
  capacity : Nat
  size_le : pixels.length ≤ capacity
  capacity_lt : capacity < 2 ^ 63

def PixelVector.empty : PixelVector := ⟨[], 0, Nat.le_refl 0, by decide⟩

structure PageBitmap where
  pageIndex : Int
  pageNumber : Int
  width : Int
  height : Int
  channels : Int
  pixels : PixelVector

def PageBitmap.empty : PageBitmap := ⟨0, 0, 0, 0, 4, .empty⟩

/-- `cv::Mat`: rows of elements of some bytes each. -/
structure Mat where
  rows : Nat
  cols : Nat
  elemSize : Nat
  data : List Byte
  data_length : data.length = rows * cols * elemSize
  data_lt : data.length < 2 ^ 63

namespace Mat

def empty : Mat := ⟨0, 0, 0, [], rfl, by decide⟩

def total (image : Mat) : Nat := image.rows * image.cols

def isEmpty (image : Mat) : Bool := image.total == 0

def bytes (image : Mat) : SizeT := BitVec.ofNat 64 image.total * BitVec.ofNat 64 image.elemSize

end Mat

/-- A page and the file of its image. -/
structure StoredPage extends PageArtifact where
  outputPath : String

/-! ## The cache -/

structure CachedImage where
  bgr : Mat
  rendered : PageBitmap

structure PageImageCacheStats where
  hits : SizeT := 0
  decodes : SizeT := 0
  failures : SizeT := 0
  uncachedDecodes : SizeT := 0
  renderedAdmissions : SizeT := 0
  renderedRejections : SizeT := 0
  conversions : SizeT := 0
  residentBytes : SizeT := 0
  peakResidentBytes : SizeT := 0

structure PageImageCache where
  maximumBytes : SizeT
  images : AList fun _ : String => CachedImage
  stats : PageImageCacheStats

namespace PageImageCache

def new (maximumBytes : SizeT) : PageImageCache := ⟨maximumBytes, ∅, {}⟩

/-- The checks of an admission before those of the budget. -/
def unsupported (page : StoredPage) (bitmap : PageBitmap) : Bool :=
  let width := bitmap.width.toNat
  let height := bitmap.height.toNat
  decide (bitmap.width ≤ 0 ∨ bitmap.height ≤ 0 ∨ bitmap.channels ≠ 4 ∨ bitmap.width ≠ page.width ∨
    bitmap.height ≠ page.height ∨ bitmap.pageIndex ≠ page.pageIndex ∨
    bitmap.pageNumber ≠ page.pageNumber) ||
  decide ((2 ^ 64 - 1) / 4 / height < width ∨
    bitmap.pixels.pixels.length ≠ width * height * 4 % 2 ^ 64)

def reject (cache : PageImageCache) : Bool × PageImageCache :=
  (false, { cache with
    stats := { cache.stats with renderedRejections := cache.stats.renderedRejections + 1 } })

def admitRendered (page : StoredPage) (bitmap : PageBitmap) (cache : PageImageCache) :
    Bool × PageImageCache :=
  let bytes := BitVec.ofNat 64 bitmap.pixels.capacity
  if unsupported page bitmap then cache.reject
  else if cache.maximumBytes - cache.stats.residentBytes < bytes then cache.reject
  else if (cache.images.lookup page.outputPath).isSome then cache.reject
  else
    let residentBytes := cache.stats.residentBytes + bytes
    (true, { cache with
      images := cache.images.insert page.outputPath ⟨.empty, bitmap⟩
      stats := { cache.stats with
        residentBytes := residentBytes
        peakResidentBytes := stdMax cache.stats.peakResidentBytes residentBytes
        renderedAdmissions := cache.stats.renderedAdmissions + 1 } })

/-- The image of a file: the cached one, or `decoded`, what reading the file now gives. -/
def read (cvtColor : PageBitmap → Mat) (key : String) (decoded : Mat) (cache : PageImageCache) :
    Mat × PageImageCache :=
  match cache.images.lookup key with
  | some cached =>
    if cached.bgr.isEmpty then
      let bgr := cvtColor cached.rendered
      (bgr, { cache with
        images := cache.images.insert key ⟨bgr, .empty⟩
        stats := { cache.stats with
          conversions := cache.stats.conversions + 1
          residentBytes := cache.stats.residentBytes -
            BitVec.ofNat 64 cached.rendered.pixels.capacity + bgr.bytes
          hits := cache.stats.hits + 1 } })
    else
      (cached.bgr, { cache with stats := { cache.stats with hits := cache.stats.hits + 1 } })
  | none =>
    if decoded.isEmpty then
      (decoded, { cache with
        stats := { cache.stats with failures := cache.stats.failures + 1 } })
    else if decoded.bytes ≤ cache.maximumBytes - cache.stats.residentBytes then
      let residentBytes := cache.stats.residentBytes + decoded.bytes
      (decoded, { cache with
        images := cache.images.insert key ⟨decoded, .empty⟩
        stats := { cache.stats with
          decodes := cache.stats.decodes + 1
          residentBytes := residentBytes
          peakResidentBytes := stdMax cache.stats.peakResidentBytes residentBytes } })
    else
      (decoded, { cache with stats := { cache.stats with
        decodes := cache.stats.decodes + 1
        uncachedDecodes := cache.stats.uncachedDecodes + 1 } })

def clear (cache : PageImageCache) : PageImageCache :=
  { cache with images := ∅, stats := { cache.stats with residentBytes := 0 } }

end PageImageCache

/-! ## Runs -/

inductive Call where
  | admitRendered (page : StoredPage) (bitmap : PageBitmap)
  | read (path : String) (decoded : Mat)
  | clear

def PageImageCache.call (cvtColor : PageBitmap → Mat) (cache : PageImageCache) :
    Call → PageImageCache
  | .admitRendered page bitmap => (cache.admitRendered page bitmap).2
  | .read path decoded => (cache.read cvtColor path decoded).2
  | .clear => cache.clear

/-- The calls of a cache with a maximum, one after another. -/
def cacheSystem (cvtColor : PageBitmap → Mat) (maximumBytes : SizeT) :
    Transition.System PageImageCache Call where
  init cache := cache = .new maximumBytes
  step cache call cache' := cache' = cache.call cvtColor call

/-! ## Bytes -/

theorem Mat.bytes_toNat (image : Mat) : image.bytes.toNat = image.data.length := by
  have hlt := image.data_lt
  unfold Mat.bytes Mat.total
  rw [← BitVec.ofNat_mul, ← image.data_length, BitVec.toNat_ofNat]
  omega

theorem PixelVector.capacity_toNat (pixels : PixelVector) :
    (BitVec.ofNat 64 pixels.capacity).toNat = pixels.capacity := by
  have hlt := pixels.capacity_lt
  rw [BitVec.toNat_ofNat]
  omega

/-- What an entry counts for: the rendered pixels, until an image replaces them. -/
def CachedImage.bytes (cached : CachedImage) : Nat :=
  if cached.bgr.isEmpty then cached.rendered.pixels.capacity else cached.bgr.data.length

/-- The bytes of all entries. -/
def PageImageCache.entryBytes (cache : PageImageCache) : Nat :=
  total (fun entry => entry.2.bytes) cache.images

/-- The pixels fill a rectangle of four bytes each. -/
structure Renderable (bitmap : PageBitmap) : Prop where
  width_pos : 0 < bitmap.width
  height_pos : 0 < bitmap.height
  pixels_length : bitmap.pixels.pixels.length = bitmap.width.toNat * bitmap.height.toNat * 4

/-- The checks exclude that the number of bytes wraps. -/
theorem renderable_of_supported {page : StoredPage} {bitmap : PageBitmap}
    (h : PageImageCache.unsupported page bitmap = false) : Renderable bitmap := by
  unfold PageImageCache.unsupported at h
  simp only [Bool.or_eq_false_iff, decide_eq_false_iff_not, not_or, not_lt, not_not] at h
  obtain ⟨⟨hwidth, hheight, -⟩, hfits, hlength⟩ := h
  refine ⟨by omega, by omega, ?_⟩
  have hpos : 0 < bitmap.height.toNat := by omega
  have hmul : bitmap.width.toNat * bitmap.height.toNat ≤ (2 ^ 64 - 1) / 4 :=
    (Nat.mul_le_mul_right _ hfits).trans (Nat.div_mul_le_self _ _)
  rw [hlength, Nat.mod_eq_of_lt]
  omega

/-! ## The invariant -/

structure Invariant (maximumBytes : SizeT) (cache : PageImageCache) : Prop where
  maximum : cache.maximumBytes = maximumBytes
  resident : cache.stats.residentBytes.toNat = cache.entryBytes
  budget : cache.stats.residentBytes.toNat ≤ maximumBytes.toNat
  peak : cache.stats.residentBytes.toNat ≤ cache.stats.peakResidentBytes.toNat
  renderable : ∀ key cached, cache.images.lookup key = some cached → cached.bgr.isEmpty = true →
    Renderable cached.rendered

theorem invariant_new (maximumBytes : SizeT) : Invariant maximumBytes (.new maximumBytes) where
  maximum := rfl
  resident := rfl
  budget := Nat.zero_le _
  peak := Nat.le_refl _
  renderable := by
    intro key cached h
    cases h

variable {maximumBytes : SizeT} {cache : PageImageCache}

/-- Counters that no check reads may change. -/
theorem Invariant.of_eq {cache' : PageImageCache} (h : Invariant maximumBytes cache)
    (hmaximum : cache'.maximumBytes = cache.maximumBytes) (himages : cache'.images = cache.images)
    (hresident : cache'.stats.residentBytes = cache.stats.residentBytes)
    (hpeak : cache'.stats.peakResidentBytes = cache.stats.peakResidentBytes) :
    Invariant maximumBytes cache' where
  maximum := hmaximum.trans h.maximum
  resident := by rw [hresident, PageImageCache.entryBytes, himages]; exact h.resident
  budget := by rw [hresident]; exact h.budget
  peak := by rw [hresident, hpeak]; exact h.peak
  renderable := by rw [himages]; exact h.renderable

theorem room_toNat (h : Invariant maximumBytes cache) :
    (cache.maximumBytes - cache.stats.residentBytes).toNat =
      maximumBytes.toNat - cache.stats.residentBytes.toNat := by
  have hbudget := h.budget
  rw [← h.maximum] at hbudget
  rw [BitVec.toNat_sub_of_le hbudget, h.maximum]

theorem toNat_stdMax (a b : SizeT) : (stdMax a b).toNat = max a.toNat b.toNat := by
  unfold stdMax
  split_ifs with h
  · exact (Nat.max_eq_right (Nat.le_of_lt h)).symm
  · exact (Nat.max_eq_left (Nat.le_of_not_lt h)).symm

/-- **Admission.** A new entry within the room that is left keeps the invariant. -/
theorem Invariant.admit (h : Invariant maximumBytes cache) {key : String} {cached : CachedImage}
    {bytes : SizeT} {cache' : PageImageCache} (hkey : cache.images.lookup key = none)
    (hbytes : bytes.toNat = cached.bytes)
    (hroom : bytes.toNat ≤ (cache.maximumBytes - cache.stats.residentBytes).toNat)
    (hrender : cached.bgr.isEmpty = true → Renderable cached.rendered)
    (hmaximum : cache'.maximumBytes = cache.maximumBytes)
    (himages : cache'.images = cache.images.insert key cached)
    (hresident : cache'.stats.residentBytes = cache.stats.residentBytes + bytes)
    (hpeak : cache'.stats.peakResidentBytes =
      stdMax cache.stats.peakResidentBytes (cache.stats.residentBytes + bytes)) :
    Invariant maximumBytes cache' := by
  have hbudget := h.budget
  rw [room_toNat h] at hroom
  have hsum : (cache.stats.residentBytes + bytes).toNat =
      cache.stats.residentBytes.toNat + bytes.toNat :=
    BitVec.toNat_add_of_lt (by have := maximumBytes.isLt; omega)
  refine ⟨hmaximum.trans h.maximum, ?_, ?_, ?_, ?_⟩
  · rw [hresident, hsum, PageImageCache.entryBytes, himages,
      total_insert_of_notMem _ _ (AList.lookup_eq_none.mp hkey), h.resident, hbytes, Nat.add_comm]
    rfl
  · rw [hresident, hsum]
    omega
  · rw [hresident, hpeak, toNat_stdMax]
    exact Nat.le_max_right _ _
  · intro key' cached' hlookup hempty
    rw [himages] at hlookup
    rcases eq_or_ne key' key with rfl | hne
    · rw [AList.lookup_insert] at hlookup
      obtain rfl := Option.some.inj hlookup
      exact hrender hempty
    · rw [AList.lookup_insert_ne hne] at hlookup
      exact h.renderable key' cached' hlookup hempty

/-- Rendered pixels count for at most the resident bytes. -/
theorem Invariant.capacity_le (h : Invariant maximumBytes cache) {key : String}
    {cached : CachedImage} (hkey : cache.images.lookup key = some cached)
    (hempty : cached.bgr.isEmpty = true) :
    BitVec.ofNat 64 cached.rendered.pixels.capacity ≤ cache.stats.residentBytes := by
  have hle := weight_le_total (fun entry : Σ _ : String, CachedImage => entry.2.bytes) hkey
  rw [BitVec.le_def, PixelVector.capacity_toNat, h.resident]
  rwa [CachedImage.bytes, if_pos hempty] at hle

variable {cvtColor : PageBitmap → Mat}

/-- **Conversion.** The image takes fewer bytes than the pixels that it replaces. -/
theorem Invariant.convert (h : Invariant maximumBytes cache) {key : String} {cached : CachedImage}
    {bgr : Mat} {cache' : PageImageCache} (hkey : cache.images.lookup key = some cached)
    (hempty : cached.bgr.isEmpty = true)
    (hbgr : bgr.data.length =
      cached.rendered.width.toNat * cached.rendered.height.toNat * 3)
    (hmaximum : cache'.maximumBytes = cache.maximumBytes)
    (himages : cache'.images = cache.images.insert key ⟨bgr, .empty⟩)
    (hresident : cache'.stats.residentBytes = cache.stats.residentBytes -
      BitVec.ofNat 64 cached.rendered.pixels.capacity + bgr.bytes)
    (hpeak : cache'.stats.peakResidentBytes = cache.stats.peakResidentBytes) :
    Invariant maximumBytes cache' := by
  obtain ⟨hwidth, hheight, hpixels⟩ := h.renderable key cached hkey hempty
  have hsize := cached.rendered.pixels.size_le
  have harea : 0 < cached.rendered.width.toNat * cached.rendered.height.toNat :=
    Nat.mul_pos (by omega) (by omega)
  have hnonempty : bgr.isEmpty = false := by
    cases hbgrempty : bgr.isEmpty with
    | false => rfl
    | true =>
      have htotal : bgr.rows * bgr.cols = 0 := beq_iff_eq.mp hbgrempty
      have hlength := bgr.data_length
      rw [htotal, Nat.zero_mul] at hlength
      omega
  have hcapacity := h.capacity_le hkey hempty
  have hle := BitVec.le_def.mp hcapacity
  have hbudget := h.budget
  have hpeakle := h.peak
  rw [PixelVector.capacity_toNat] at hle
  have hvalue : cache'.stats.residentBytes.toNat =
      cache.stats.residentBytes.toNat - cached.rendered.pixels.capacity + bgr.data.length := by
    have hsub := BitVec.toNat_sub_of_le hcapacity
    rw [PixelVector.capacity_toNat] at hsub
    rw [hresident, BitVec.toNat_add_of_lt, hsub, Mat.bytes_toNat]
    have := maximumBytes.isLt
    rw [hsub, Mat.bytes_toNat]
    omega
  refine ⟨hmaximum.trans h.maximum, ?_, ?_, ?_, ?_⟩
  · have hbefore := total_erase (fun entry : Σ _ : String, CachedImage => entry.2.bytes) hkey
    have hafter := total_insert (fun entry : Σ _ : String, CachedImage => entry.2.bytes) key
      ⟨bgr, .empty⟩ cache.images
    have hold : cached.bytes = cached.rendered.pixels.capacity := if_pos hempty
    have hnew : CachedImage.bytes ⟨bgr, .empty⟩ = bgr.data.length :=
      if_neg (hnonempty ▸ Bool.false_ne_true)
    have hresident := h.resident
    rw [PageImageCache.entryBytes] at hresident ⊢
    rw [himages, hafter, hvalue]
    dsimp only at hbefore ⊢
    omega
  · omega
  · rw [hpeak]
    omega
  · intro key' cached' hlookup hempty'
    rw [himages] at hlookup
    rcases eq_or_ne key' key with rfl | hne
    · rw [AList.lookup_insert] at hlookup
      obtain rfl := Option.some.inj hlookup
      rw [hnonempty] at hempty'
      cases hempty'
    · rw [AList.lookup_insert_ne hne] at hlookup
      exact h.renderable key' cached' hlookup hempty'

theorem Invariant.clear (h : Invariant maximumBytes cache) :
    Invariant maximumBytes cache.clear where
  maximum := h.maximum
  resident := rfl
  budget := Nat.zero_le _
  peak := Nat.zero_le _
  renderable := by
    intro key cached hlookup
    cases hlookup

/-! ## Calls -/

theorem Invariant.admitRendered (h : Invariant maximumBytes cache) (page : StoredPage)
    (bitmap : PageBitmap) : Invariant maximumBytes (cache.admitRendered page bitmap).2 := by
  unfold PageImageCache.admitRendered
  dsimp only
  split_ifs with hunsupported hroom hkey
  · exact h.of_eq rfl rfl rfl rfl
  · exact h.of_eq rfl rfl rfl rfl
  · exact h.of_eq rfl rfl rfl rfl
  · refine h.admit (Option.not_isSome_iff_eq_none.mp hkey) ?_ (Nat.le_of_not_lt hroom) ?_ rfl rfl
      rfl rfl
    · rw [PixelVector.capacity_toNat]
      rfl
    · exact fun _ => renderable_of_supported (Bool.not_eq_true _ ▸ hunsupported)

theorem Invariant.read (h : Invariant maximumBytes cache)
    (hconvert : ∀ bitmap, Renderable bitmap →
      (cvtColor bitmap).data.length = bitmap.width.toNat * bitmap.height.toNat * 3)
    (key : String) (decoded : Mat) :
    Invariant maximumBytes (cache.read cvtColor key decoded).2 := by
  unfold PageImageCache.read
  cases hkey : cache.images.lookup key with
  | some cached =>
    dsimp only
    split_ifs with hempty
    · exact h.convert hkey hempty (hconvert _ (h.renderable key cached hkey hempty)) rfl rfl rfl rfl
    · exact h.of_eq rfl rfl rfl rfl
  | none =>
    dsimp only
    split_ifs with hempty hroom
    · exact h.of_eq rfl rfl rfl rfl
    · refine h.admit hkey ?_ hroom (fun hdecoded => absurd hdecoded hempty) rfl rfl rfl rfl
      rw [Mat.bytes_toNat, CachedImage.bytes, if_neg hempty]
    · exact h.of_eq rfl rfl rfl rfl

theorem reachable_invariant
    (hconvert : ∀ bitmap, Renderable bitmap →
      (cvtColor bitmap).data.length = bitmap.width.toNat * bitmap.height.toNat * 3)
    (hcache : (cacheSystem cvtColor maximumBytes).Reachable cache) :
    Invariant maximumBytes cache := by
  refine hcache.invariant (fun s hs => ?_) fun s call t _ h ht => ?_
  · rw [show s = .new maximumBytes from hs]
    exact invariant_new maximumBytes
  · rw [show t = s.call cvtColor call from ht]
    cases call with
    | admitRendered page bitmap => exact h.admitRendered page bitmap
    | read path decoded => exact h.read hconvert path decoded
    | clear => exact h.clear

/-! ## The budget -/

theorem reject_unchanged {page : StoredPage} {bitmap : PageBitmap}
    (h : (cache.admitRendered page bitmap).1 = false) :
    cache.admitRendered page bitmap = cache.reject := by
  unfold PageImageCache.admitRendered at h ⊢
  dsimp only at h ⊢
  split_ifs at h ⊢
  · rfl
  · rfl
  · rfl

/-- **Budget.** In every reachable state the resident bytes are those of the entries and at most
the maximum, and the peak is at least as large. The subtractions of an admission and of a
conversion do not wrap. A rejected admission and a failed decode change neither the entries nor
the resident bytes. -/
theorem cache_budget
    (hconvert : ∀ bitmap, Renderable bitmap →
      (cvtColor bitmap).data.length = bitmap.width.toNat * bitmap.height.toNat * 3)
    (hcache : (cacheSystem cvtColor maximumBytes).Reachable cache) :
    cache.stats.residentBytes.toNat = cache.entryBytes ∧
    cache.stats.residentBytes ≤ maximumBytes ∧
    cache.stats.residentBytes ≤ cache.stats.peakResidentBytes ∧
    cache.stats.residentBytes ≤ cache.maximumBytes ∧
    (∀ key cached, cache.images.lookup key = some cached → cached.bgr.isEmpty = true →
      BitVec.ofNat 64 cached.rendered.pixels.capacity ≤ cache.stats.residentBytes) ∧
    (∀ page bitmap, (cache.admitRendered page bitmap).1 = false →
      (cache.admitRendered page bitmap).2.images = cache.images ∧
      (cache.admitRendered page bitmap).2.stats.residentBytes = cache.stats.residentBytes) ∧
    (∀ key decoded, cache.images.lookup key = none → decoded.isEmpty = true →
      (cache.read cvtColor key decoded).2.images = cache.images ∧
      (cache.read cvtColor key decoded).2.stats.residentBytes = cache.stats.residentBytes) := by
  have h := reachable_invariant hconvert hcache
  refine ⟨h.resident, h.budget, h.peak, ?_, fun key cached => h.capacity_le, ?_, ?_⟩
  · rw [h.maximum]
    exact h.budget
  · intro page bitmap hrejected
    rw [reject_unchanged hrejected]
    exact ⟨rfl, rfl⟩
  · intro key decoded hkey hempty
    unfold PageImageCache.read
    rw [hkey]
    dsimp only
    rw [if_pos hempty]
    exact ⟨rfl, rfl⟩

/-- Pixels in the order blue, green, red. -/
def rgbaToBgr : List Byte → List Byte
  | red :: green :: blue :: _ :: pixels => blue :: green :: red :: rgbaToBgr pixels
  | _ => []

theorem rgbaToBgr_length : ∀ pixels : List Byte,
    (rgbaToBgr pixels).length = pixels.length / 4 * 3
  | [] | [_] | [_, _] | [_, _, _] => by simp [rgbaToBgr]
  | _ :: _ :: _ :: _ :: pixels => by
    simp only [rgbaToBgr, List.length_cons]
    rw [rgbaToBgr_length pixels]
    omega

/-- `cv::cvtColor` on the pixels of a bitmap. -/
def convertRgba (bitmap : PageBitmap) : Mat :=
  if h : (rgbaToBgr bitmap.pixels.pixels).length =
      bitmap.height.toNat * bitmap.width.toNat * 3 ∧
      (rgbaToBgr bitmap.pixels.pixels).length < 2 ^ 63 then
    ⟨bitmap.height.toNat, bitmap.width.toNat, 3, rgbaToBgr bitmap.pixels.pixels, h.1, h.2⟩
  else .empty

theorem convertRgba_length (bitmap : PageBitmap) (h : Renderable bitmap) :
    (convertRgba bitmap).data.length = bitmap.width.toNat * bitmap.height.toNat * 3 := by
  have hlength := rgbaToBgr_length bitmap.pixels.pixels
  have hsize := bitmap.pixels.size_le
  have hcapacity := bitmap.pixels.capacity_lt
  rw [h.pixels_length, Nat.mul_div_cancel _ (by decide)] at hlength
  rw [h.pixels_length] at hsize
  rw [convertRgba, dif_pos]
  · exact hlength
  · exact ⟨by rw [hlength, Nat.mul_comm bitmap.width.toNat], by omega⟩

/-- A page of one pixel that is rendered and then read. -/
def readPage : PageImageCache :=
  let page : StoredPage := ⟨⟨2, 3, "page-3.png", 1, 1⟩, "/out/page-3.png"⟩
  let bitmap : PageBitmap := ⟨2, 3, 1, 1, 4, ⟨[9, 8, 7, 255], 6, by decide, by decide⟩⟩
  ((PageImageCache.new 8).call convertRgba (.admitRendered page bitmap)).call convertRgba
    (.read "/out/page-3.png" .empty)

theorem reachable_call (h : (cacheSystem cvtColor maximumBytes).Reachable cache) (call : Call) :
    (cacheSystem cvtColor maximumBytes).Reachable (cache.call cvtColor call) :=
  .step h rfl

theorem readPage_reachable : (cacheSystem convertRgba 8).Reachable readPage := by
  unfold readPage
  apply reachable_call
  apply reachable_call
  exact .init rfl

theorem cache_budget_readPage : readPage.stats.residentBytes.toNat = readPage.entryBytes ∧
    readPage.stats.residentBytes ≤ 8 ∧
    readPage.stats.residentBytes ≤ readPage.stats.peakResidentBytes :=
  let h := cache_budget convertRgba_length readPage_reachable
  ⟨h.1, h.2.1, h.2.2.1⟩

end DocParser.Image
