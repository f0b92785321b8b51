/-
# Walking the pages of a chunk

A page is laid behind the page before it: its header begins where that one's payload ended.  So the pages
that `parse_column_chunk_pages` returns cover the chunk, and no two of them overlap.

The offset and the size of the chunk are added in 64 bits before they are compared with the file's length.
Where the sum wraps, the test passes for a chunk that begins in front of the file.

* `Laid`: the pages between two offsets; `pagesLoop_laid` is the step of the loop.
* `parseColumnChunkPages_tiling`: the pages tile the chunk, within the file, exactly when the sum does not
  wrap or the chunk is empty.
-/
import Mathlib.Tactic.IntervalCases
import RyuDB.PageHeaders

namespace RyuDB

namespace Pages

/-! ## 1. Pages one behind the other -/

/-- The offset of a page's header. -/
def PageDesc.start (pg : PageDesc) : Int := pg.payloadOff - pg.headerLen

/-- The offset behind a page's payload. -/
def PageDesc.stop (pg : PageDesc) : Int := pg.payloadOff + pg.compSize

/-- The pages lie one behind the other from `a` to `e`, none of them empty. -/
def Laid : Int → List PageDesc → Int → Prop
  | a, [], e => a = e
  | a, pg :: pages, e => pg.start = a ∧ 0 < pg.headerLen ∧ 0 < pg.compSize ∧ Laid pg.stop pages e

/-- The pages tile the chunk, in their order, and their payloads lie in the file. -/
structure Tiling (fileLen chunkOff size : Nat) (pages : List PageDesc) : Prop where
  first : ∀ pg ∈ pages.head?, pg.start = chunkOff
  next : pages.IsChain fun p q => q.start = p.stop
  total : (pages.map fun pg => (pg.headerLen : Int) + pg.compSize).sum = size
  within : ∀ pg ∈ pages, (chunkOff : Int) ≤ pg.payloadOff ∧ pg.stop ≤ (chunkOff + size : Nat)
  in_file : ∀ pg ∈ pages, 0 ≤ pg.payloadOff ∧ pg.stop ≤ fileLen
  apart : pages.Pairwise fun p q => p.stop ≤ q.payloadOff

theorem Laid.le {pages : List PageDesc} {a e : Int} (h : Laid a pages e) : a ≤ e := by
  induction pages generalizing a with
  | nil => exact le_of_eq h
  | cons pg pages ih =>
    obtain ⟨hstart, hlen, hsize, hrest⟩ := h
    have hle := ih hrest
    unfold PageDesc.start at hstart
    unfold PageDesc.stop at hle
    omega

/-- Every page lies between the two offsets. -/
theorem Laid.within {pages : List PageDesc} {a e : Int} (h : Laid a pages e) :
    ∀ pg ∈ pages, a ≤ pg.payloadOff ∧ pg.stop ≤ e := by
  induction pages generalizing a with
  | nil => simp
  | cons pg pages ih =>
    obtain ⟨hstart, hlen, hsize, hrest⟩ := h
    unfold PageDesc.start at hstart
    rintro q (_ | ⟨_, hq⟩)
    · exact ⟨by omega, hrest.le⟩
    · obtain ⟨hlo, hhi⟩ := ih hrest q hq
      unfold PageDesc.stop at hlo
      exact ⟨by omega, hhi⟩

theorem Laid.apart {pages : List PageDesc} {a e : Int} (h : Laid a pages e) :
    pages.Pairwise fun p q => p.stop ≤ q.payloadOff := by
  induction pages generalizing a with
  | nil => exact .nil
  | cons pg pages ih =>
    obtain ⟨-, -, -, hrest⟩ := h
    exact List.pairwise_cons.mpr ⟨fun q hq => (hrest.within q hq).1, ih hrest⟩

theorem Laid.total {pages : List PageDesc} {a e : Int} (h : Laid a pages e) :
    (pages.map fun pg => (pg.headerLen : Int) + pg.compSize).sum = e - a := by
  induction pages generalizing a with
  | nil =>
    obtain rfl : a = e := h
    simp
  | cons pg pages ih =>
    obtain ⟨hstart, -, -, hrest⟩ := h
    rw [List.map_cons, List.sum_cons, ih hrest]
    unfold PageDesc.start at hstart
    unfold PageDesc.stop
    omega

theorem Laid.next {pages : List PageDesc} {a e : Int} (h : Laid a pages e) :
    pages.IsChain fun p q => q.start = p.stop := by
  induction pages generalizing a with
  | nil => exact .nil
  | cons pg pages ih =>
    obtain ⟨-, -, -, hrest⟩ := h
    cases pages with
    | nil => exact .singleton pg
    | cons q pages => exact .cons_cons hrest.1 (ih hrest)

theorem Laid.tiling {pages : List PageDesc} {fileLen chunkOff size : Nat}
    (h : Laid chunkOff pages (chunkOff + size : Nat)) (hfile : chunkOff + size ≤ fileLen) :
    Tiling fileLen chunkOff size pages where
  first pg hpg := by
    cases pages with
    | nil => cases hpg
    | cons q pages =>
      obtain rfl : q = pg := Option.some.inj hpg
      exact h.1
  next := h.next
  total := by
    rw [h.total]
    omega
  within := h.within
  in_file pg hpg := by
    have hpg := h.within pg hpg
    omega
  apart := h.apart

/-! ## 2. The loop -/

theorem int64_eq {n : Int} (hlo : 0 ≤ n) (hhi : n < 2 ^ 63) : int64 n = n :=
  Int.bmod_eq_of_le_mul_two (by omega) (by omega)

/-- A page with its place, where `left` bytes are left behind its header. -/
def placed (chunkOff size : Nat) (bs : Bytes) (pg : PageDesc) (left : Nat) : PageDesc :=
  { pg with headerLen := bs.length - left, payloadOff := int64 (chunkOff + (size - left : Nat)) }

@[simp] theorem placed_compSize (chunkOff size : Nat) (bs : Bytes) (pg : PageDesc) (left : Nat) :
    (placed chunkOff size bs pg left).compSize = pg.compSize := by
  unfold placed
  rfl

/-- What the loop does with the bytes that are left. -/
theorem pagesLoop_cases {chunkOff size : Nat} {bs : Bytes} {pages : List PageDesc}
    (h : pagesLoop chunkOff size bs = .ok pages) :
    bs = [] ∧ pages = [] ∨
      ∃ pg t rest, bs ≠ [] ∧ parsePageHeader {} bs = .ok (pg, t) ∧ 0 < pg.compSize ∧
        pg.compSize.toNat ≤ t.1.length ∧
        pagesLoop chunkOff size (t.1.drop pg.compSize.toNat) = .ok rest ∧
        pages = placed chunkOff size bs pg t.1.length :: rest := by
  rw [pagesLoop] at h
  split_ifs at h with hbs
  · exact .inl ⟨hbs, (Except.ok.inj h).symm⟩
  · split at h
    · cases h
    · next pg t hheader =>
      split_ifs at h with hpos hfits
      dsimp only at h
      split at h
      · cases h
      · next rest hrest =>
        exact .inr ⟨pg, t, rest, hbs, hheader, not_le.mp hpos, not_lt.mp hfits, hrest,
          (Except.ok.inj h).symm⟩

/-- The pages of the bytes that are left lie from where these begin to the end of the chunk, if the chunk
ends below 2^63. -/
theorem pagesLoop_laid {chunkOff size : Nat} (hend : chunkOff + size < 2 ^ 63) :
    ∀ {pages : List PageDesc} {bs : Bytes}, bs.length ≤ size → pagesLoop chunkOff size bs = .ok pages →
      Laid (chunkOff + (size - bs.length) : Nat) pages (chunkOff + size : Nat) := by
  intro pages
  induction pages with
  | nil =>
    intro bs hle h
    rcases pagesLoop_cases h with ⟨rfl, -⟩ | ⟨pg, t, rest, -, -, -, -, -, hpages⟩
    · exact rfl
    · cases hpages
  | cons page pages ih =>
    intro bs hle h
    rcases pagesLoop_cases h with ⟨-, hnil⟩ | ⟨pg, t, rest, -, -, hpos, hfits, hrest, hpages⟩
    · cases hnil
    · obtain ⟨rfl, rfl⟩ := List.cons.inj hpages
      have ht := t.2.2
      have hlaid := ih (by rw [List.length_drop]; omega) hrest
      rw [List.length_drop] at hlaid
      have hoff : int64 (chunkOff + (size - t.1.length : Nat)) = chunkOff + (size - t.1.length : Nat) :=
        int64_eq (by omega) (by omega)
      rw [Laid]
      refine ⟨?_, ?_, by rwa [placed_compSize], ?_⟩
      · simp only [PageDesc.start, placed, hoff]
        omega
      · simp only [placed]
        omega
      · have hstop : (placed chunkOff size bs pg t.1.length).stop =
            (chunkOff + (size - (t.1.length - pg.compSize.toNat)) : Nat) := by
          simp only [PageDesc.stop, placed, hoff]
          omega
        rw [hstop]
        exact hlaid

theorem File.length_chunk (f : File) (chunkOff size : Nat) : (f.chunk chunkOff size).length = size := by
  simp [File.chunk]

/-- A chunk that is not empty has a page, and the offset of its payload is a number of 64 bits. -/
theorem pagesLoop_first {chunkOff size : Nat} {bs : Bytes} {pages : List PageDesc} (hbs : bs ≠ [])
    (h : pagesLoop chunkOff size bs = .ok pages) : ∃ pg ∈ pages, pg.payloadOff < 2 ^ 63 := by
  rcases pagesLoop_cases h with ⟨hnil, -⟩ | ⟨pg, t, rest, -, -, -, -, -, rfl⟩
  · exact absurd hnil hbs
  · refine ⟨_, List.mem_cons_self, ?_⟩
    have hlt := Int.bmod_lt (x := chunkOff + (size - t.1.length : Nat)) (m := 2 ^ 64) (by omega)
    simp only [placed, int64]
    omega

/-! ## 3. The chunk -/

/-- The pages of a chunk tile it, inside the chunk and the file, exactly when the offset and the size
do not wrap around, or the chunk is empty.  The file is any file on which the walk succeeds: what it
checks of each page is enough for everything but the sum of the offset and the size, which the source
adds without a check. -/
theorem parseColumnChunkPages_tiling {f : File} {chunkOff : Fin (2 ^ 64)} {size : Fin (2 ^ 31)}
    {pages : List PageDesc} (h : parseColumnChunkPages f chunkOff size = .ok pages) :
    Tiling f.bytes.length chunkOff size pages ↔ chunkOff.val + size.val < 2 ^ 64 ∨ size.val = 0 := by
  unfold parseColumnChunkPages at h
  split_ifs at h with hlen
  have hoff := chunkOff.isLt
  have hsize := size.isLt
  have hfile := f.length_lt
  constructor
  · intro htiling
    by_contra hwrap
    rw [not_or, not_lt] at hwrap
    have hne : f.chunk chunkOff size ≠ [] := by
      intro hnil
      have := f.length_chunk chunkOff size
      rw [hnil] at this
      exact hwrap.2 this.symm
    obtain ⟨pg, hpg, hlt⟩ := pagesLoop_first hne h
    have := (htiling.within pg hpg).1
    omega
  · intro hcase
    rcases hcase with hno | hzero
    · rw [Nat.mod_eq_of_lt hno] at hlen
      have hlaid := pagesLoop_laid (by omega) (f.length_chunk chunkOff size).le h
      rw [f.length_chunk, Nat.sub_self, Nat.add_zero] at hlaid
      exact hlaid.tiling (by omega)
    · have hnil : f.chunk chunkOff size = [] := by
        rw [← List.length_eq_zero_iff, f.length_chunk, hzero]
      rcases pagesLoop_cases h with ⟨-, rfl⟩ | ⟨pg, t, rest, hne, -⟩
      · exact ⟨by simp, .nil, by simp [hzero], by simp, by simp, .nil⟩
      · exact absurd hnil hne

/-- A file that is two pages of two bytes, each behind its header. -/
def pageFile : File where
  bytes := [0x35, 4, 0, 0, 0, 0x35, 4, 0, 7, 7]
  memory i := ([0x35, 4, 0, 0, 0, 0x35, 4, 0, 7, 7] : Bytes).getD i.toNat 0
  length_lt := by simp
  memory_eq i b h := by
    rw [List.getD_eq_getElem?_getD, Int.toNat_natCast, h]
    rfl

/-- A file of one byte, and memory in front of it that reads as the header of a page of two bytes. -/
def shortFile : File where
  bytes := [0]
  memory i := if i = -4 then 0x35 else if i = -3 then 4 else 0
  length_lt := by simp
  memory_eq i b h := by
    cases i with
    | zero => simpa using h
    | succ i => simp at h

/-- A page of two bytes behind a header of three. -/
def twoBytes (payloadOff : Int) : PageDesc where
  payloadOff := payloadOff
  headerLen := 3
  compSize := 2
  valueEncoding := -1
  defLevelEncoding := -1
  repLevelEncoding := -1

theorem pagesLoop_page (chunkOff : Nat) :
    pagesLoop chunkOff 5 [0x35, 4, 0, 0, 0] = .ok [twoBytes (int64 (chunkOff + 3))] := by
  simp [pagesLoop, parsePageHeader, pageLoop, readField, CType.of, CType.ofCode, pageField, sizeField,
    zigzagVarint, varintLoop, Rest.here, Rest.cons, Tail.rest, Tail.more, Rest.up, Thrift.unzigzag, int32,
    twoBytes]

theorem pageFile_pages :
    parseColumnChunkPages pageFile 0 10 = .ok [twoBytes (int64 (0 + 3)), twoBytes (int64 (0 + 8))] := by
  have hchunk : pageFile.chunk 0 10 = [0x35, 4, 0, 0, 0, 0x35, 4, 0, 7, 7] := by decide +kernel
  have hpages : pagesLoop 0 10 [0x35, 4, 0, 0, 0, 0x35, 4, 0, 7, 7] =
      .ok [twoBytes (int64 (0 + 3)), twoBytes (int64 (0 + 8))] := by
    simp [pagesLoop, parsePageHeader, pageLoop, readField, CType.of, CType.ofCode, pageField, sizeField,
      zigzagVarint, varintLoop, Rest.here, Rest.cons, Tail.rest, Tail.more, Rest.up, Thrift.unzigzag,
      int32, twoBytes]
  rw [← hchunk] at hpages
  exact hpages

theorem parseColumnChunkPages_tiling_pages :
    Tiling pageFile.bytes.length (0 : Fin (2 ^ 64)) (10 : Fin (2 ^ 31))
      [twoBytes (int64 (0 + 3)), twoBytes (int64 (0 + 8))] :=
  (parseColumnChunkPages_tiling pageFile_pages).mpr (.inl (by decide))

/-- An offset of minus four, as 64 bits, and a size of five pass the test for the file of one byte; the page
that comes back begins in front of the file. -/
theorem payload_outside_file :
    ∃ pages, parseColumnChunkPages shortFile ⟨2 ^ 64 - 4, by decide⟩ 5 = .ok pages ∧
      ¬Tiling shortFile.bytes.length (2 ^ 64 - 4) 5 pages := by
  have hchunk : shortFile.chunk (2 ^ 64 - 4) 5 = [0x35, 4, 0, 0, 0] := by decide +kernel
  have hpages := pagesLoop_page (2 ^ 64 - 4)
  rw [← hchunk] at hpages
  refine ⟨_, hpages, fun h => ?_⟩
  have hin := (h.in_file _ List.mem_cons_self).1
  revert hin
  decide +kernel

end Pages

end RyuDB
