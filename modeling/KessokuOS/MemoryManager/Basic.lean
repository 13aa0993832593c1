import KessokuOS.Data.FCVector
import KessokuOS.Lib.Loop

/-!
# The memory manager

The heap is a sequence of blocks, each a `BlockHeader` followed by its payload.
The headers make a doubly linked list in the memory; the size of a block is not
stored, but follows from the address of the next one. The unused blocks are
listed by increasing size in `freeBlocks`, where a binary search finds the first
one that is large enough.

The state is the memory, in which the headers lie, together with the static
variables of the memory manager. Pointers are addresses, `0` being null.

* `malloc` takes the smallest unused block that is large enough, and splits it
  when more than a header is left over;
* `free` gives a block back, merging it with the unused blocks next to it;
* `initializeManager` makes one unused block of the memory region of the heap, found
  in the table the bootloader leaves (`initializeMemoryRange`).
-/

namespace KessokuOS.MemoryManager

/-- The number of bytes of a header: two pointers, a flag and its padding. -/
abbrev sizeofBlockHeader : ℕ := 12

/-- The static variable `s_memoryInfo`. -/
structure MemoryInfo where
  baseNode : ℕ
  tailNode : ℕ
  endAddress : ℕ
  freeBlocks : FCVector ℕ 2048
  endAddress_lt : endAddress < 2 ^ 32

/-- A range of usable memory. -/
structure MemoryRange where
  baseAddress : ℕ
  regionLength : ℕ
  deriving DecidableEq, Repr

/-- The static variable `s_memoryRangeTable`: 32 entries, and how many are used. -/
structure MemoryRangeTable where
  entries : ℕ → MemoryRange
  entryCount : ℕ

/-- The state of the memory manager: the memory and the static variables. -/
structure State where
  mem : Memory
  memoryInfo : MemoryInfo
  memoryRangeTable : MemoryRangeTable

namespace State

variable (s : State)

/-! ## Headers -/

/-- The field `prev` of the header at `a`. -/
def prev (a : ℕ) : ℕ := s.mem.load a 4

/-- The field `next` of the header at `a`. -/
def next (a : ℕ) : ℕ := s.mem.load (a + 4) 4

/-- The field `used` of the header at `a`. -/
def used (a : ℕ) : Bool := s.mem (a + 8) != 0

def setPrev (a v : ℕ) : State := { s with mem := s.mem.store a 4 v }

def setNext (a v : ℕ) : State := { s with mem := s.mem.store (a + 4) 4 v }

def setUsed (a : ℕ) (v : Bool) : State := { s with mem := s.mem.store (a + 8) 1 v.toNat }

/-- Assigns a whole header; its padding keeps what it holds. -/
def setHeader (a prev next : ℕ) (used : Bool) : State :=
  ((s.setPrev a prev).setNext a next).setUsed a used

abbrev baseNode : ℕ := s.memoryInfo.baseNode

abbrev endAddress : ℕ := s.memoryInfo.endAddress

abbrev freeBlocks : FCVector ℕ 2048 := s.memoryInfo.freeBlocks

def setFreeBlocks (v : FCVector ℕ 2048) : State :=
  { s with memoryInfo := { s.memoryInfo with freeBlocks := v } }

/-! ## The list of the unused blocks -/

/-- The size of the payload of `block`: what lies between its header and the
    next one, or the end of the heap. -/
def getBlockSize (block : ℕ) : ℕ :=
  if block = 0 then 0
  else
    let endAddress := if s.next block = 0 then s.endAddress else s.next block
    u32Sub (u32Sub endAddress block) sizeofBlockHeader

/-- The loop of the binary search, in at most `fuel` rounds: the element at
    `start` is too small, the one at `stop` is not. -/
def bisect (size : ℕ) : (fuel start stop : ℕ) → Option ℕ
  | 0, _, _ => none
  | fuel + 1, start, stop =>
    let midpoint := (start + stop) / 2
    if start ≠ midpoint then
      if s.getBlockSize (s.freeBlocks.array midpoint) < size then
        bisect size fuel midpoint stop
      else bisect size fuel start midpoint
    else some stop

/-- The index of the first unused block of at least `size` bytes. The search
    takes at most as many rounds as there are unused blocks. -/
def findFirstGteFreeBlock (size : ℕ) : ℕ :=
  if s.freeBlocks.size = 0 ∨ size ≤ s.getBlockSize (s.freeBlocks.array 0) then 0
  else (s.bisect size s.freeBlocks.size 0 s.freeBlocks.size).getD s.freeBlocks.size

/-- Lists `block` as unused. A full list is left as it is: the error of the
    insertion is not looked at. -/
def addFreeBlock (block : ℕ) : State :=
  s.setFreeBlocks (s.freeBlocks.insert (s.findFirstGteFreeBlock (s.getBlockSize block)) block).2

/-- The loop of `removeFreeBlock` from the index `i` on, with `n` indices left. -/
def removeFreeBlockFrom (block blockSize : ℕ) : (i n : ℕ) → ErrorOr Unit × State
  | _, 0 => (.error .indexOutOfRange, s)
  | i, n + 1 =>
    if blockSize = s.getBlockSize (s.freeBlocks.array i) then
      if block = s.freeBlocks.array i then (.ok (), s.setFreeBlocks (s.freeBlocks.remove i).2)
      else removeFreeBlockFrom block blockSize (i + 1) n
    else (.error .indexOutOfRange, s)

/-- Takes `block` off the list of the unused blocks, searching for it among
    those of its size. -/
def removeFreeBlock (block : ℕ) : ErrorOr Unit × State :=
  let blockSize := s.getBlockSize block
  let startIndex := s.findFirstGteFreeBlock blockSize
  s.removeFreeBlockFrom block blockSize startIndex (s.freeBlocks.size - startIndex)

/-! ## Allocation -/

/-- Makes a block of the bytes of `block` behind its first `paddedSize` ones, if
    they are more than a header. The link of the block behind back to `block`
    is left as it is. -/
def split (block paddedSize : ℕ) : State :=
  if sizeofBlockHeader < u32Sub (s.getBlockSize block) paddedSize then
    let splitBlock := u32 (block + sizeofBlockHeader + paddedSize)
    ((s.setHeader splitBlock block (s.next block) false).setNext block splitBlock).addFreeBlock
      splitBlock
  else s

/-- Allocates at least `size` bytes, and returns their address. -/
def malloc (size : ℕ) : ErrorOr ℕ × State :=
  if size = 0 then (.error .invalidArgument, s)
  else if s.baseNode = 0 then (.error .uninitialized, s)
  else
    let paddedSize := getSmallestGteMultiple size 4
    let freeBlockIndex := s.findFirstGteFreeBlock paddedSize
    if freeBlockIndex < s.freeBlocks.size then
      let block := s.freeBlocks.array freeBlockIndex
      let s := s.setFreeBlocks (s.freeBlocks.remove freeBlockIndex).2
      let s := s.setUsed block true
      (.ok (u32 (block + sizeofBlockHeader)), s.split block paddedSize)
    else (.error .memoryManagerNoFreeBlocks, s)

/-- The first half of `free`: merges the unused block behind `node` into it. -/
def mergeNext (node : ℕ) : ErrorOr Unit × State :=
  if s.next node ≠ 0 ∧ s.used (s.next node) = false then
    match s.removeFreeBlock (s.next node) with
    | (.error e, s) => (.error e, s)
    | (.ok (), s) =>
      let s := s.setNext node (s.next (s.next node))
      if s.next node ≠ 0 then (.ok (), s.setPrev (s.next node) node) else (.ok (), s)
  else (.ok (), s)

/-- The second half of `free`: merges `node` into the unused block its link leads
    back to, and returns the block it ends up in. -/
def mergePrev (node : ℕ) : ErrorOr ℕ × State :=
  if s.prev node ≠ 0 ∧ s.used (s.prev node) = false then
    match s.removeFreeBlock (s.prev node) with
    | (.error e, s) => (.error e, s)
    | (.ok (), s) =>
      let s := s.setNext (s.prev node) (s.next node)
      let s := if s.next node ≠ 0 then s.setPrev (s.next node) (s.prev node) else s
      (.ok (s.prev node), s)
  else (.ok node, s)

/-- Frees the block whose payload is at `memory`. -/
def free (memory : ℕ) : ErrorOr Unit × State :=
  if memory = 0 then (.ok (), s)
  else
    let node := u32Sub memory sizeofBlockHeader
    if s.used node = true then
      match (s.setUsed node false).mergeNext node with
      | (.error e, s) => (.error e, s)
      | (.ok (), s) =>
        match s.mergePrev node with
        | (.error e, s) => (.error e, s)
        | (.ok node, s) => (.ok (), s.addFreeBlock node)
    else (.error .invalidArgument, s)

end State

/-! ## Initialisation -/

abbrev pageSize : ℕ := 4096

/-- The address of the heap: the first page behind the kernel. -/
def heapBaseAddress (kernelEnd : ℕ) : ℕ := kernelEnd - kernelEnd % pageSize + pageSize

abbrev memoryInformationTable : ℕ := 0x7000

namespace MemoryRangeTable

/-- Appends `range` to the entries. -/
def push (t : MemoryRangeTable) (range : MemoryRange) : MemoryRangeTable :=
  ⟨Function.update t.entries t.entryCount range, t.entryCount + 1⟩

end MemoryRangeTable

/-- A round of the loop of `initializeMemoryRange`, with the entry at `p`: it
    leaves the loop at the null entry, or when the table is full. -/
def memoryRangeRound (m : Memory) : MemoryRangeTable × ℕ →
    Option ((MemoryRangeTable × ℕ) ⊕ (MemoryRangeTable × ℕ))
  | (t, p) =>
    if (m.load p 8 = 0 ∧ m.load (p + 8) 8 = 0 ∧ m.load (p + 16) 8 = 0) ∨ 32 ≤ t.entryCount then
      some (.inr (t, p))
    else
      let range := ⟨u32 (m.load p 8), u32 (m.load (p + 8) 8)⟩
      let regionType := u32 (m.load (p + 16) 8)
      some (.inl (if regionType = 1 then t.push range else t, p + 24))

/-- Reads the usable ranges off the table of the bootloader: the table of the
    ranges, and the address at which the reading stops. -/
def initializeMemoryRange (fuel : ℕ) (m : Memory) (t : MemoryRangeTable) :
    Option (MemoryRangeTable × ℕ) :=
  loop (memoryRangeRound m) fuel ({ t with entryCount := 0 }, memoryInformationTable)

/-- The end of the first of the ranges from the index `i` on, with `n` left, which
    contains `address`; `0` if none does. -/
def findRangeEnd (t : MemoryRangeTable) (address : ℕ) : (i n : ℕ) → ℕ
  | _, 0 => 0
  | i, n + 1 =>
    let startAddress := (t.entries i).baseAddress
    let endAddress := u32 (startAddress + (t.entries i).regionLength)
    if startAddress ≤ address ∧ address < endAddress then endAddress
    else findRangeEnd t address (i + 1) n

theorem findRangeEnd_lt (t : MemoryRangeTable) (address i n : ℕ) :
    findRangeEnd t address i n < 2 ^ 32 := by
  induction n generalizing i with
  | zero => norm_num [findRangeEnd]
  | succ n ih =>
    rw [findRangeEnd]
    split_ifs
    · exact u32_lt _
    · exact ih _

/-- `MemoryManager::initialize`: makes the heap behind the kernel, which ends at
    `kernelEnd`. -/
def initializeManager (fuel kernelEnd : ℕ) (s : State) : Option (ErrorOr Unit × State) :=
  (initializeMemoryRange fuel s.mem s.memoryRangeTable).map fun (t, _) =>
    let block := heapBaseAddress kernelEnd
    let s := { s with memoryRangeTable := t }.setHeader block 0 0 false
    let memEndAddress := findRangeEnd t block 0 32
    if memEndAddress ≠ 0 then
      let freeBlocks := (FCVector.new s.freeBlocks.array).pushBack block
      (.ok (), { s with memoryInfo :=
        ⟨block, block, memEndAddress, freeBlocks.2, findRangeEnd_lt t block 0 32⟩ })
    else (.error .memoryManagerFailedToFindMemoryRegion, s)

end KessokuOS.MemoryManager
