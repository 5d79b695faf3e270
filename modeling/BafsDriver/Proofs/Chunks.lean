import BafsDriver.Proofs.DmaLedger
import BafsDriver.Proofs.MapBounds

/-!
# Chunks of a registration

Three loops cut the `size` bytes of a registration into one chunk for each page: the DMA map of CPU
memory, `unmap_dma`, and the loop that maps CUDA pages. Each shortens a chunk that starts past the
end. None does: the last chunk starts before it. So the chunks tile the pages, and the registered
range where it has no part of a page.
-/

namespace BafsDriver

/-! ## The loops -/

/-- The loops over the chunks of a registration. -/
inductive ChunkLoop where
  | bafs_ctrl_dma_map_mem
  | unmap_dma
  | pin_bafs_cuda_mem

/-- `i*dma->map_gran` in `unsigned`, and `i*mem->page_size` in `unsigned long`. -/
def ChunkLoop.start (loop : ChunkLoop) (page_size i : Nat) : Nat :=
  match loop with
  | .bafs_ctrl_dma_map_mem | .unmap_dma => u32 (i * u32 page_size)
  | .pin_bafs_cuda_mem => u64 (i * page_size)

/-- `map_gran` of chunk `i`; `dma->map_gran` is the page size in `unsigned`. -/
def ChunkLoop.len (loop : ChunkLoop) (size page_size i : Nat) : Nat :=
  match loop with
  | .bafs_ctrl_dma_map_mem | .unmap_dma => chunk_len i (u32 page_size) size
  | .pin_bafs_cuda_mem => remap_len i page_size size

/-- The page sizes that a pin sets. -/
def accepted (page_size page_shift : Nat) : Prop :=
  (page_size, page_shift) = (PAGE_SIZE, PAGE_SHIFT) ∨
    ∃ p, cuda_page_size p = some (page_size, page_shift)

/-- What the correction of the last chunk is meant to compute. -/
def exact_len (size page_size i : Nat) : Int :=
  if size < i * page_size then page_size - (i * page_size - size : Int) else page_size

/-- The `n` chunks of a loop tile `size` bytes: none of its products and differences wraps, each chunk
is at its place and has a length up to a page, they do not overlap and add up to `size`. -/
structure Tiles (loop : ChunkLoop) (size page_size n : Nat) : Prop where
  start_eq : ∀ i < n, loop.start page_size i = i * page_size
  len_eq : ∀ i < n, (loop.len size page_size i : Int) = exact_len size page_size i
  len_range : ∀ i < n, 1 ≤ loop.len size page_size i ∧ loop.len size page_size i ≤ page_size
  disjoint : ∀ i, i + 1 < n →
    loop.start page_size i + loop.len size page_size i ≤ loop.start page_size (i + 1)
  total : ((List.range n).map (loop.len size page_size)).sum = size

variable {size page_size page_shift i : Nat}

/-! ## The chunks are those of the driver -/

/-- The chunks of the calls that map CPU pages for DMA. -/
theorem map_calls_len {c : CtrlId} {x : BafsMem} {answer : Nat → Option Nat} {n : Nat} :
    map_calls c x answer n = (List.range n).map fun i => .dma_map_single c (x.table.getD i 0)
      ((answer i).getD 0) (ChunkLoop.bafs_ctrl_dma_map_mem.len x.size x.page_size i) := rfl

/-- The chunks of the calls that unmap them. -/
theorem unmap_call_len {y : BafsMemDma} {x : BafsMem} {addrs : List Nat}
    (hy : y.map_gran = u32 x.page_size) (hi : i < addrs.length) : unmap_call y x addrs i =
      .dma_unmap_single y.ctrl addrs[i] (ChunkLoop.unmap_dma.len x.size x.page_size i) := by
  unfold unmap_call
  rw [List.getElem?_eq_getElem hi, hy]
  rfl

/-- The chunks of the ranges that map CUDA pages. -/
theorem remaps_of_len {x : BafsMem} {physical_address : List Nat} {n : Nat} :
    remaps_of x physical_address n = (List.range n).map fun i =>
      ⟨u64 (x.vaddr + ChunkLoop.pin_bafs_cuda_mem.start x.page_size i),
        physical_address.getD i 0 >>> PAGE_SHIFT,
        ChunkLoop.pin_bafs_cuda_mem.len x.size x.page_size i, none⟩ := rfl

/-! ## What the chunks are -/

theorem accepted_eq (ha : accepted page_size page_shift) :
    page_size = 2 ^ page_shift ∧ page_size ≤ 2 ^ 17 := by
  rcases ha with he | ⟨p, hp⟩
  · obtain ⟨rfl, rfl⟩ := Prod.mk.inj he
    decide
  · exact cuda_page_size_eq hp

theorem accepted_pos (ha : accepted page_size page_shift) : 0 < page_size := by
  rw [(accepted_eq ha).1]
  exact Nat.two_pow_pos page_shift

/-- The number of pages is the size divided by the page size, rounded up. -/
theorem pages_for_eq (ha : accepted page_size page_shift) (hsize : size < 2 ^ 32) :
    pages_for size page_size page_shift = (size + page_size - 1) / page_size := by
  obtain ⟨hp, hle⟩ := accepted_eq ha
  have hu : u64 (size + page_size - 1) = size + page_size - 1 := Nat.mod_eq_of_lt (by omega)
  rw [pages_for, hu, Nat.shiftRight_eq_div_pow, ← hp]

theorem chunk_start (loop : ChunkLoop) (hle : page_size ≤ 2 ^ 17) (hi : i * page_size < 2 ^ 32) :
    loop.start page_size i = i * page_size := by
  have hu : u32 page_size = page_size := Nat.mod_eq_of_lt (by omega)
  cases loop with
  | pin_bafs_cuda_mem => exact Nat.mod_eq_of_lt (by omega)
  | _ =>
    unfold ChunkLoop.start
    rw [hu]
    exact Nat.mod_eq_of_lt hi

/-- A chunk that starts within the registration is a whole page. -/
theorem chunk_len_whole (loop : ChunkLoop) (hle : page_size ≤ 2 ^ 17) (hsize : size < 2 ^ 32)
    (hi : i * page_size < size) : loop.len size page_size i = page_size := by
  have hu : u32 page_size = page_size := Nat.mod_eq_of_lt (by omega)
  cases loop with
  | pin_bafs_cuda_mem => exact remap_len_eq hle hsize hi
  | _ =>
    have hstart : u32 (i * page_size) = i * page_size := Nat.mod_eq_of_lt (by omega)
    unfold ChunkLoop.len chunk_len
    rw [hu, hstart, if_neg (by omega)]

/-- The chunks are whole pages, so that they add up to these. -/
theorem chunk_total (loop : ChunkLoop) (ha : accepted page_size page_shift) (hsize : size < 2 ^ 32) :
    ((List.range (pages_for size page_size page_shift)).map (loop.len size page_size)).sum =
      pages_for size page_size page_shift * page_size := by
  obtain ⟨hp, hle⟩ := accepted_eq ha
  have hwhole : ∀ i ∈ List.range (pages_for size page_size page_shift),
      loop.len size page_size i = page_size := by
    intro i hi
    exact chunk_len_whole loop hle hsize (page_lt hp hle hsize (List.mem_range.mp hi))
  rw [List.map_congr_left hwhole, List.map_const', List.sum_replicate_nat,
    List.length_range]

/-- The pages have as many bytes as the registration exactly if it ends with a page. -/
theorem pages_total_iff (ha : accepted page_size page_shift) (hsize : size < 2 ^ 32) :
    pages_for size page_size page_shift * page_size = size ↔ page_size ∣ size := by
  have hpos := accepted_pos ha
  rw [pages_for_eq ha hsize]
  constructor
  · intro he
    exact ⟨_, (he.symm.trans (Nat.mul_comm ..))⟩
  · rintro ⟨k, rfl⟩
    have hdiv : (page_size * k + page_size - 1) / page_size = k := by
      rw [Nat.add_sub_assoc hpos, Nat.mul_add_div hpos, Nat.div_eq_of_lt (by omega), Nat.add_zero]
    rw [hdiv, Nat.mul_comm]

/-- The chunks of each loop tile the registered range exactly if its size is a multiple of the page
size. -/
theorem chunks_tile (loop : ChunkLoop) (hsize : size < 2 ^ 32)
    (ha : accepted page_size page_shift) :
    Tiles loop size page_size (pages_for size page_size page_shift) ↔ page_size ∣ size := by
  obtain ⟨hp, hle⟩ := accepted_eq ha
  constructor
  · intro ht
    exact (pages_total_iff ha hsize).mp ((chunk_total loop ha hsize).symm.trans ht.total)
  · intro hdvd
    have hin : ∀ i < pages_for size page_size page_shift, i * page_size < size := fun i hi =>
      page_lt hp hle hsize hi
    have hstart : ∀ i < pages_for size page_size page_shift,
        loop.start page_size i = i * page_size := fun i hi =>
      chunk_start loop hle ((hin i hi).trans hsize)
    have hlen : ∀ i < pages_for size page_size page_shift,
        loop.len size page_size i = page_size := fun i hi =>
      chunk_len_whole loop hle hsize (hin i hi)
    refine ⟨hstart, fun i hi => ?_, fun i hi => ?_, fun i hi => ?_, ?_⟩
    · rw [hlen i hi, exact_len, if_neg (Nat.lt_asymm (hin i hi))]
    · rw [hlen i hi]
      exact ⟨accepted_pos ha, le_rfl⟩
    · rw [hstart (i + 1) hi, hstart i (by omega), hlen i (by omega), Nat.succ_mul]
    · exact (chunk_total loop ha hsize).trans ((pages_total_iff ha hsize).mpr hdvd)

/-- The chunks of two pages of CUDA memory. -/
theorem chunks_tile_two_pages : Tiles .pin_bafs_cuda_mem 131072 65536 (pages_for 131072 65536 16) :=
  (chunks_tile .pin_bafs_cuda_mem (by decide)
    (.inr ⟨.NVIDIA_P2P_PAGE_SIZE_64KB, rfl⟩)).mpr ⟨2, rfl⟩

/-- A registration of one byte is cut into a chunk of a page. -/
theorem one_byte_not_tiled :
    ¬∀ loop size page_size page_shift, 1 ≤ size → size < 2 ^ 32 → accepted page_size page_shift →
      Tiles loop size page_size (pages_for size page_size page_shift) := by
  intro hall
  have ht := (hall .bafs_ctrl_dma_map_mem 1 PAGE_SIZE PAGE_SHIFT (by decide) (by decide)
    (.inl rfl)).total
  exact absurd ht (by decide)

end BafsDriver
