import FiberGateway.Lib.Interleaving

namespace FiberGateway

open List

structure Region where
  start : Nat
  size : Nat
  deriving DecidableEq, Repr

namespace Region

def stop (r : Region) : Nat := r.start + r.size

def Apart (r s : Region) : Prop := r.stop ≤ s.start ∨ s.stop ≤ r.start

def Inside (r s : Region) : Prop := s.start ≤ r.start ∧ r.stop ≤ s.stop

variable {r s r' s' : Region}

theorem Apart.symm (apart : r.Apart s) : s.Apart r := Or.symm apart

theorem Apart.mono (apart : r.Apart s) (inside : r'.Inside r) (inside' : s'.Inside s) :
    r'.Apart s' := by
  obtain ⟨first, second⟩ := inside
  obtain ⟨first', second'⟩ := inside'
  exact apart.imp (fun before => by omega) fun before => by omega

end Region

/-- `system_alloc`: the reply depends on the call, on what is allocated, and on what is asked for. It is aligned and apart
from every other allocation. -/
structure SystemAlloc where
  reply : Nat → List Region → Nat → Nat → Option Nat
  aligned : ∀ {call live size align p}, reply call live size align = some p → align ∣ p
  fresh : ∀ {call live size align p}, reply call live size align = some p → ∀ r ∈ live, Region.Apart ⟨p, size⟩ r

def sizeofBlock : Nat := 32

def sizeofLargeBlock : Nat := 16

/-- `alignof` of `Block` and of `LargeBlock`. -/
def alignofBlock : Nat := 8

def alignofMaxAlign : Nat := 16

structure Block where
  base : Nat
  cap : Nat
  used : Nat
  deriving DecidableEq, Repr

def Block.data (block : Block) : Nat := block.base + sizeofBlock

/-- What is handed out comes with the alignment that was asked for. -/
inductive Purpose
  | header
  | record
  | returned (asked : Nat)
  deriving DecidableEq, Repr

/-- A part of the memory that was given a purpose. -/
structure Taken extends Region where
  purpose : Purpose
  align : Nat
  deriving DecidableEq, Repr

/-- The pool. The first of `blocks` is `current_`; `large` has the records with the data they are for. `live`, `calls` and
`taken` are the allocations of the system, the calls for them, and all that was laid out in them. -/
structure BufPool where
  blockSize : Nat
  psz : Nat
  blocks : List Block := []
  large : List (Nat × Nat) := []
  live : List Region := []
  calls : Nat := 0
  taken : List Taken := []
  deriving DecidableEq, Repr

structure Request where
  size : Nat
  align : Nat
  power : ∃ k, align = 2 ^ k
  small : size + align < 2 ^ 64

def roundUp (ptr align : Nat) : Nat := (ptr + (align - 1)) / align * align

def stdAlign (align size ptr space : Nat) : Option Nat :=
  if space < size + (roundUp ptr align - ptr) then none else some (roundUp ptr align)

namespace BufPool

def new (blockSize psz : Nat) : BufPool := { blockSize := if blockSize ≤ sizeofBlock then 4096 else blockSize, psz := psz }

variable (system : SystemAlloc) (pool : BufPool)

def called : BufPool := { pool with calls := pool.calls + 1 }

def reserve (r : Region) : BufPool := { pool with calls := pool.calls + 1, live := r :: pool.live }

def systemAlloc (size align : Nat) : Option Nat × BufPool :=
  match system.reply pool.calls pool.live size align with
  | none => (none, pool.called)
  | some p => (some p, pool.reserve ⟨p, size⟩)

def systemFree (p size : Nat) : BufPool := { pool with live := pool.live.erase ⟨p, size⟩ }

def take (purpose : Purpose) (start size align : Nat) : BufPool :=
  { pool with taken := pool.taken ++ [⟨⟨start, size⟩, purpose, align⟩] }

/-- `allocate_block`: `block_size_` bytes, whatever `size` is. -/
def allocateBlock (size : Nat) : Bool × BufPool :=
  match pool.systemAlloc system pool.blockSize alignofBlock with
  | (none, pool) => (false, pool)
  | (some base, pool) =>
    (true, { pool with blocks := ⟨base, size, 0⟩ :: pool.blocks }.take .header base sizeofBlock alignofBlock)

/-- A part of the current block. -/
def place (current : Block) (blocks : List Block) (purpose : Purpose) (start size align : Nat) : BufPool :=
  { pool with blocks := { current with used := start - current.data + size } :: blocks }.take purpose start size align

/-- The loop of `alloc_from_blocks`; without fuel it would go on. -/
def allocLoop (purpose : Purpose) (size align : Nat) : Nat → BufPool → Option (Option Nat × BufPool)
  | 0, _ => none
  | fuel + 1, pool =>
    match pool.blocks with
    | [] => none
    | current :: blocks =>
      match stdAlign align size (current.data + current.used) (current.cap - current.used) with
      | some aligned => some (some aligned, pool.place current blocks purpose aligned size align)
      | none =>
        match pool.allocateBlock system (max pool.blockSize (size + align)) with
        | (false, pool) => some (none, pool)
        | (true, pool) => allocLoop purpose size align fuel pool

def allocFromBlocks (purpose : Purpose) (size align : Nat) : Option (Option Nat × BufPool) :=
  if pool.blocks = [] then
    match pool.allocateBlock system (max pool.blockSize (size + align)) with
    | (false, pool) => some (none, pool)
    | (true, pool) => allocLoop system purpose size align 2 pool
  else allocLoop system purpose size align 2 pool

def allocLarge (asked size align : Nat) : Option (Option Nat × BufPool) :=
  match pool.systemAlloc system size align with
  | (none, pool) => some (none, pool)
  | (some data, pool) =>
    (pool.allocFromBlocks system .record sizeofLargeBlock alignofBlock).map fun (node, pool) =>
      match node with
      | none => (none, pool.systemFree data size)
      | some node => (some data, { pool with large := (node, data) :: pool.large }.take (.returned asked) data size align)

def alloc (request : Request) : Option (Option Nat × BufPool) :=
  if request.size = 0 then some (none, pool)
  else
    let align := max request.align alignofMaxAlign
    if request.size ≤ pool.psz then pool.allocFromBlocks system (.returned request.align) request.size align
    else pool.allocLarge system request.align request.size align

def step (request : Request) : Option BufPool := (pool.alloc system request).map Prod.snd

/-- Any number of calls one after the other. -/
def run (requests : List Request) : Option BufPool :=
  Interleaving.run (fun _ _ => True) (step system) pool requests

/-- What was handed out is aligned and within one allocation, and it overlaps nothing else that was laid out. -/
structure Safe : Prop where
  aligned : ∀ t ∈ pool.taken, t.align ∣ t.start ∧ ∀ asked, t.purpose = .returned asked → asked ∣ t.start
  inside : ∀ t ∈ pool.taken, ∃ r ∈ pool.live, t.toRegion.Inside r
  apart : pool.taken.Pairwise fun t u => t.toRegion.Apart u.toRegion

/-- The place stays within the block behind its header. -/
def Fits (size align : Nat) : Prop :=
  match pool.blocks.head? with
  | none => sizeofBlock + (align - 1) + size ≤ pool.blockSize
  | some current =>
    match stdAlign align size (current.data + current.used) (current.cap - current.used) with
    | some aligned => sizeofBlock + (aligned - current.data + size) ≤ pool.blockSize
    | none => sizeofBlock + (align - 1) + size ≤ pool.blockSize

def Calm (request : Request) : Prop :=
  request.size = 0 ∨ if request.size ≤ pool.psz then pool.Fits request.size (max request.align alignofMaxAlign)
    else pool.Fits sizeofLargeBlock alignofBlock

def CalmRun (requests : List Request) : Prop := Interleaving.Through (fun _ _ => True) (step system) Calm pool requests

end BufPool

theorem roundUp_spec (ptr : Nat) {align : Nat} (positive : 0 < align) :
    align ∣ roundUp ptr align ∧ ptr ≤ roundUp ptr align ∧ roundUp ptr align ≤ ptr + (align - 1) := by
  have parts := Nat.div_add_mod' (ptr + (align - 1)) align
  have rest := Nat.mod_lt (ptr + (align - 1)) positive
  exact ⟨Nat.dvd_mul_left .., by unfold roundUp; omega, by unfold roundUp; omega⟩

namespace BufPool

/-- The region of a block. -/
def regionOf (pool : BufPool) (block : Block) : Region := ⟨block.base, pool.blockSize⟩

/-- What holds between two calls; `reserved` are allocations that nothing has been laid out in yet. -/
structure Inv (pool : BufPool) (reserved : List Region) : Prop where
  size : sizeofBlock < pool.blockSize
  safe : pool.Safe
  blocks : ∀ b ∈ pool.blocks, pool.regionOf b ∈ pool.live ∧ sizeofBlock + b.used ≤ pool.blockSize ∧
    ∀ t ∈ pool.taken, t.stop ≤ b.data + b.used ∨ t.Apart (pool.regionOf b)
  blocksApart : pool.blocks.Pairwise fun b c => (pool.regionOf b).Apart (pool.regionOf c)
  free : ∀ r ∈ reserved, r ∈ pool.live ∧ (∀ t ∈ pool.taken, t.Apart r) ∧ ∀ b ∈ pool.blocks, (pool.regionOf b).Apart r
  freeApart : reserved.Pairwise Region.Apart

namespace Inv

variable {system : SystemAlloc} {pool : BufPool} {reserved : List Region}

variable {purpose : Purpose} {size align start p base data : Nat}

theorem take (inv : pool.Inv reserved) (aligned : align ∣ start) (asked : ∀ n, purpose = .returned n → n ∣ align)
    (inside : ∃ r ∈ pool.live, Region.Inside ⟨start, size⟩ r) (apart : ∀ t ∈ pool.taken, t.Apart ⟨start, size⟩)
    (blocks : ∀ b ∈ pool.blocks, start + size ≤ b.data + b.used ∨ Region.Apart ⟨start, size⟩ (pool.regionOf b))
    (free : ∀ r ∈ reserved, Region.Apart ⟨start, size⟩ r) : (pool.take purpose start size align).Inv reserved := by
  have new {P : Taken → Prop} (old : ∀ t ∈ pool.taken, P t) (own : P ⟨⟨start, size⟩, purpose, align⟩) :
      ∀ t ∈ (pool.take purpose start size align).taken, P t := by
    simpa [BufPool.take, or_imp, forall_and] using ⟨old, own⟩
  refine ⟨inv.size, ⟨new inv.safe.aligned ⟨aligned, fun n is => (asked n is).trans aligned⟩, new inv.safe.inside inside, ?_⟩,
    fun b member => ?_, inv.blocksApart, fun r member => ?_, inv.freeApart⟩
  · exact pairwise_append.mpr ⟨inv.safe.apart, pairwise_singleton .., by simpa using apart⟩
  · obtain ⟨there, room, old⟩ := inv.blocks b member
    exact ⟨there, room, new old (blocks b member)⟩
  · obtain ⟨there, old, others⟩ := inv.free r member
    exact ⟨there, new old (free r member), others⟩

theorem reserve (inv : pool.Inv reserved)
    (given : system.reply pool.calls pool.live size align = some p) :
    (pool.reserve ⟨p, size⟩).Inv (⟨p, size⟩ :: reserved) := by
  have fresh := system.fresh given
  refine ⟨inv.size, ⟨inv.safe.aligned, fun t member => ?_, inv.safe.apart⟩, fun b member => ?_, inv.blocksApart, ?_, ?_⟩
  · obtain ⟨r, there, inside⟩ := inv.safe.inside t member
    exact ⟨r, mem_cons_of_mem _ there, inside⟩
  · obtain ⟨there, rest⟩ := inv.blocks b member
    exact ⟨mem_cons_of_mem _ there, rest⟩
  · refine forall_mem_cons.mpr ⟨⟨mem_cons_self, fun t member => ?_, fun b member => ?_⟩, fun r member => ?_⟩
    · obtain ⟨r, there, inside⟩ := inv.safe.inside t member
      exact ((fresh r there).mono ⟨le_rfl, le_rfl⟩ inside).symm
    · exact (fresh _ (inv.blocks b member).1).symm
    · obtain ⟨there, rest⟩ := inv.free r member
      exact ⟨mem_cons_of_mem _ there, rest⟩
  · exact pairwise_cons.mpr ⟨fun r member => fresh r (inv.free r member).1, inv.freeApart⟩

theorem allocateBlock (inv : pool.Inv (⟨base, pool.blockSize⟩ :: reserved)) (aligned : alignofBlock ∣ base) (cap : Nat) :
    Inv ({ pool with blocks := ⟨base, cap, 0⟩ :: pool.blocks }.take .header base sizeofBlock alignofBlock) reserved := by
  obtain ⟨⟨there, old, others⟩, free⟩ := forall_mem_cons.mp inv.free
  obtain ⟨apart, freeApart⟩ := pairwise_cons.mp inv.freeApart
  have room := inv.size
  have header : Region.Inside ⟨base, sizeofBlock⟩ ⟨base, pool.blockSize⟩ := ⟨le_rfl, Nat.add_le_add_left room.le _⟩
  have block : Inv { pool with blocks := ⟨base, cap, 0⟩ :: pool.blocks } reserved := by
    refine ⟨inv.size, ⟨inv.safe.1, inv.safe.2, inv.safe.3⟩, forall_mem_cons.mpr ⟨⟨there, room.le, fun t member => .inr (old t member)⟩, inv.blocks⟩,
      pairwise_cons.mpr ⟨fun b member => (others b member).symm, inv.blocksApart⟩, fun r member => ?_, freeApart⟩
    obtain ⟨there', old', others'⟩ := free r member
    exact ⟨there', old', forall_mem_cons.mpr ⟨apart r member, others'⟩⟩
  refine block.take aligned nofun ⟨_, there, header⟩ (fun t member => (old t member).mono ⟨le_rfl, le_rfl⟩ header)
    (forall_mem_cons.mpr ⟨.inl le_rfl, fun b member => .inr ?_⟩) fun r member => (apart r member).mono header ⟨le_rfl, le_rfl⟩
  exact (others b member).symm.mono header ⟨le_rfl, le_rfl⟩

theorem place (inv : pool.Inv reserved) {current : Block} {blocks : List Block}
    (first : pool.blocks = current :: blocks) (aligned : align ∣ start)
    (asked : ∀ n, purpose = .returned n → n ∣ align) (behind : current.data + current.used ≤ start)
    (fits : sizeofBlock + (start - current.data + size) ≤ pool.blockSize) :
    (pool.place current blocks purpose start size align).Inv reserved := by
  have old := inv.blocks
  have apart := inv.blocksApart
  rw [first] at old apart
  obtain ⟨⟨there, -, taken⟩, others⟩ := forall_mem_cons.mp old
  obtain ⟨alone, rest⟩ := pairwise_cons.mp apart
  have inside : Region.Inside ⟨start, size⟩ (pool.regionOf current) := by
    constructor <;> simp only [regionOf, Region.stop, Block.data] at * <;> omega
  have block : Inv { pool with blocks := { current with used := start - current.data + size } :: blocks } reserved := by
    refine ⟨inv.size, ⟨inv.safe.1, inv.safe.2, inv.safe.3⟩, forall_mem_cons.mpr ⟨⟨there, fits, fun t member => ?_⟩, others⟩,
      pairwise_cons.mpr ⟨alone, rest⟩, fun r member => ?_, inv.freeApart⟩
    · refine (taken t member).imp_left fun before => ?_
      change _ ≤ current.data + (start - current.data + size)
      omega
    · obtain ⟨there', old', others'⟩ := inv.free r member
      rw [first, forall_mem_cons] at others'
      exact ⟨there', old', forall_mem_cons.mpr others'⟩
  refine block.take aligned asked ⟨_, there, inside⟩ (fun t member => ?_)
    (forall_mem_cons.mpr ⟨.inl ?_, fun b member => .inr ?_⟩) fun r member => ?_
  · exact (taken t member).elim (fun before => .inl (before.trans behind)) fun apart => apart.mono ⟨le_rfl, le_rfl⟩ inside
  · change _ ≤ current.data + (start - current.data + size)
    omega
  · exact (alone b member).mono inside ⟨le_rfl, le_rfl⟩
  · have others' := (inv.free r member).2.2
    rw [first] at others'
    exact (forall_mem_cons.mp others').1.mono inside ⟨le_rfl, le_rfl⟩

theorem handOut (inv : pool.Inv (⟨data, size⟩ :: reserved)) (aligned : align ∣ data)
    (asked : ∀ n, purpose = .returned n → n ∣ align) : (pool.take purpose data size align).Inv reserved := by
  obtain ⟨⟨there, old, others⟩, free⟩ := forall_mem_cons.mp inv.free
  obtain ⟨apart, freeApart⟩ := pairwise_cons.mp inv.freeApart
  have rest : pool.Inv reserved := ⟨inv.size, inv.safe, inv.blocks, inv.blocksApart, free, freeApart⟩
  exact rest.take aligned asked ⟨_, there, le_rfl, le_rfl⟩ old (fun b member => .inr (others b member).symm) apart

end Inv

variable {system : SystemAlloc} {pool : BufPool}

/-- The pool with a new current block. -/
def withBlock (pool : BufPool) (base cap : Nat) : BufPool :=
  { pool.reserve ⟨base, pool.blockSize⟩ with blocks := ⟨base, cap, 0⟩ :: pool.blocks }.take .header base sizeofBlock alignofBlock

variable {reserved : List Region} {size align base asked : Nat}

theorem Inv.withBlock (inv : pool.Inv reserved)
    (given : system.reply pool.calls pool.live pool.blockSize alignofBlock = some base) (cap : Nat) :
    (pool.withBlock base cap).Inv reserved :=
  (inv.reserve given).allocateBlock (system.aligned given) cap

/-- The part lies at the front of a new block. -/
def InNewBlock (system : SystemAlloc) (pool : BufPool) (purpose : Purpose) (size align : Nat)
    (result : Option (Option Nat × BufPool)) : Prop :=
  ∃ base start, system.reply pool.calls pool.live pool.blockSize alignofBlock = some base ∧ align ∣ start ∧
    base + sizeofBlock ≤ start ∧ start ≤ base + sizeofBlock + (align - 1) ∧
    result = some (some start, (pool.withBlock base (max pool.blockSize (size + align))).place
      ⟨base, max pool.blockSize (size + align), 0⟩ pool.blocks purpose start size align)

/-- A new block is allocated, and the next round of the loop succeeds. -/
theorem newBlock_cases (system : SystemAlloc) (pool : BufPool) (positive : 0 < align) (purpose : Purpose)
    (fuel : Nat) {result : Option (Option Nat × BufPool)}
    (does : result = match pool.allocateBlock system (max pool.blockSize (size + align)) with | (false, pool) => some (none, pool) | (true, pool) => allocLoop system purpose size align (fuel + 1) pool) :
    result = some (none, pool.called) ∨ InNewBlock system pool purpose size align result := by
  rw [does, BufPool.allocateBlock, systemAlloc]
  cases reply : system.reply pool.calls pool.live pool.blockSize alignofBlock with
  | none => exact .inl rfl
  | some base =>
    obtain ⟨divides, low, high⟩ := roundUp_spec (base + sizeofBlock) positive
    refine .inr ⟨base, roundUp (base + sizeofBlock) align, reply, divides, low, high, ?_⟩
    have found : stdAlign align size (base + sizeofBlock) (max pool.blockSize (size + align)) =
        some (roundUp (base + sizeofBlock) align) := if_neg (by omega)
    change allocLoop system purpose size align (fuel + 1) (pool.withBlock base (max pool.blockSize (size + align))) = _
    rw [allocLoop]
    change (match stdAlign align size (base + sizeofBlock) (max pool.blockSize (size + align)) with
      | some _ => _ | none => _) = _
    rw [found]

/-- What `alloc_from_blocks` does: the system has no room, the part lies in the current block, or it lies in a new one. -/
theorem allocFromBlocks_cases (system : SystemAlloc) (pool : BufPool) (positive : 0 < align) (purpose : Purpose) :
    pool.allocFromBlocks system purpose size align = some (none, pool.called) ∨
      (∃ current blocks start, pool.blocks = current :: blocks ∧
        stdAlign align size (current.data + current.used) (current.cap - current.used) = some start ∧
        pool.allocFromBlocks system purpose size align = some (some start, pool.place current blocks purpose start size align)) ∨
      (∀ current ∈ pool.blocks.head?,
        stdAlign align size (current.data + current.used) (current.cap - current.used) = none) ∧
        InNewBlock system pool purpose size align (pool.allocFromBlocks system purpose size align) := by
  cases blocks : pool.blocks with
  | nil =>
    have begins : pool.allocFromBlocks system purpose size align = _ := if_pos blocks
    exact (newBlock_cases system pool positive purpose 1 begins).imp_right fun new => .inr ⟨nofun, new⟩
  | cons current rest =>
    have loop : pool.allocFromBlocks system purpose size align = _ := if_neg (blocks ▸ cons_ne_nil current rest)
    rw [allocLoop, blocks] at loop
    cases found : stdAlign align size (current.data + current.used) (current.cap - current.used) with
    | some start =>
      simp only [found] at loop
      exact .inr (.inl ⟨current, rest, start, rfl, found, loop⟩)
    | none =>
      simp only [found] at loop
      refine (newBlock_cases system pool positive purpose 0 loop).imp_right fun new => .inr ⟨?_, new⟩
      simpa using found

theorem Inv.allocFromBlocks (inv : pool.Inv reserved) (positive : 0 < align) {purpose : Purpose}
    (asked : ∀ n, purpose = .returned n → n ∣ align) (fits : pool.Fits size align) :
    pool.allocFromBlocks system purpose size align = some (none, pool.called) ∨
      ∃ start pool', pool.allocFromBlocks system purpose size align = some (some start, pool') ∧ pool'.Inv reserved := by
  rcases allocFromBlocks_cases system pool positive purpose with none | ⟨current, blocks, start, first, found, done⟩ | ⟨full, new⟩
  · exact .inl none
  · refine .inr ⟨start, _, done, ?_⟩
    unfold Fits at fits
    simp only [first, List.head?_cons, found] at fits
    unfold stdAlign at found
    split at found
    · cases found
    obtain ⟨divides, low, -⟩ := roundUp_spec (current.data + current.used) positive
    cases found
    exact inv.place first divides asked low fits
  · obtain ⟨base, start, given, divides, low, high, done⟩ := new
    refine .inr ⟨start, _, done, (inv.withBlock given _).place rfl divides asked low ?_⟩
    have room : sizeofBlock + (align - 1) + size ≤ pool.blockSize := by
      unfold Fits at fits
      split at fits
      · exact fits
      rename_i current head
      rw [full current head] at fits
      exact fits
    change sizeofBlock + (start - (base + sizeofBlock) + size) ≤ pool.blockSize
    omega

theorem Inv.called (inv : pool.Inv reserved) : pool.called.Inv reserved :=
  ⟨inv.size, ⟨inv.safe.1, inv.safe.2, inv.safe.3⟩, inv.blocks, inv.blocksApart, inv.free, inv.freeApart⟩

theorem Request.dvd (request : Request) : request.align ∣ max request.align alignofMaxAlign := by
  obtain ⟨k, power⟩ := request.power
  rw [power]
  rcases Nat.lt_or_ge k 4 with small | large
  · interval_cases k <;> decide
  · rw [max_eq_left]
    exact Nat.pow_le_pow_right (n := 2) (by decide) large

theorem Inv.allocLarge (inv : pool.Inv []) (size : Nat) (dvd : asked ∣ align)
    (fits : pool.Fits sizeofLargeBlock alignofBlock) :
    ∃ node pool', pool.allocLarge system asked size align = some (node, pool') ∧ pool'.Inv [] := by
  rw [BufPool.allocLarge, systemAlloc]
  cases given : system.reply pool.calls pool.live size align with
  | none => exact ⟨_, _, rfl, inv.called⟩
  | some data =>
    have aligned := system.aligned given
    have kept := fits
    have record (n : Nat) (is : Purpose.record = .returned n) : n ∣ alignofBlock := nomatch is
    dsimp only
    rcases (inv.reserve given).allocFromBlocks (by decide) record kept with failed | ⟨node, pool', done, inv'⟩
    · rw [failed]
      refine ⟨_, _, rfl, ?_⟩
      have freed : ((pool.reserve ⟨data, size⟩).called.systemFree data size) = pool.called.called := by
        simp [systemFree, BufPool.called, BufPool.reserve]
      dsimp only
      rw [freed]
      exact inv.called.called
    · rw [done]
      have large : Inv { pool' with large := (node, data) :: pool'.large } [⟨data, size⟩] :=
        ⟨inv'.size, ⟨inv'.safe.1, inv'.safe.2, inv'.safe.3⟩, inv'.blocks, inv'.blocksApart, inv'.free, inv'.freeApart⟩
      refine ⟨_, _, rfl, large.handOut aligned fun n is => ?_⟩
      cases is
      exact dvd

/-- A call that stays within the blocks keeps the invariant. -/
theorem Inv.step (inv : pool.Inv []) {request : Request} (calm : pool.Calm request) :
    ∃ pool', pool.step system request = some pool' ∧ pool'.Inv [] := by
  have dvd := Request.dvd request
  have positive : 0 < max request.align alignofMaxAlign := by simp [alignofMaxAlign]
  unfold BufPool.step alloc
  by_cases empty : request.size = 0
  · exact ⟨pool, by simp [empty], inv⟩
  have fits := calm.resolve_left empty
  rw [if_neg empty]
  dsimp only
  split at fits
  · rename_i small
    rw [if_pos small]
    have returned (n : Nat) (is : Purpose.returned request.align = .returned n) : n ∣ max request.align alignofMaxAlign := by
      cases is
      exact dvd
    rcases inv.allocFromBlocks positive returned fits with failed | ⟨start, pool', done, inv'⟩
    · exact ⟨pool.called, by rw [failed]; rfl, inv.called⟩
    · exact ⟨pool', by rw [done]; rfl, inv'⟩
  · rename_i large
    rw [if_neg large]
    obtain ⟨node, pool', done, inv'⟩ := inv.allocLarge request.size dvd fits
    exact ⟨pool', by rw [done]; rfl, inv'⟩

theorem step_isSome (system : SystemAlloc) (pool : BufPool) (request : Request) : ∃ pool', pool.step system request = some pool' := by
  have ends (pool : BufPool) (purpose : Purpose) (size align : Nat) (positive : 0 < align) :
      ∃ result, pool.allocFromBlocks system purpose size align = some result := by
    rcases allocFromBlocks_cases system pool positive purpose with done | ⟨_, _, _, _, _, done⟩ | ⟨_, _, _, _, _, _, _, done⟩
    · exact ⟨_, done⟩
    · exact ⟨_, done⟩
    · exact ⟨_, done⟩
  have positive : 0 < max request.align alignofMaxAlign := by simp [alignofMaxAlign]
  unfold BufPool.step alloc BufPool.allocLarge
  split
  · exact ⟨_, rfl⟩
  dsimp only
  split
  · obtain ⟨result, done⟩ := ends pool (.returned request.align) request.size _ positive
    exact ⟨result.2, by rw [done]; rfl⟩
  · split
    · exact ⟨_, rfl⟩
    · rename_i pool' _
      obtain ⟨result, done⟩ := ends pool' .record sizeofLargeBlock alignofBlock (by decide)
      rw [done]
      exact ⟨_, rfl⟩

theorem Inv.new (blockSize psz : Nat) : (new blockSize psz).Inv [] := by
  refine ⟨?_, ⟨nofun, nofun, .nil⟩, nofun, .nil, nofun, .nil⟩
  unfold BufPool.new
  split <;> simp_all [sizeofBlock]

/-- The calls end. As long as the parts fit behind the headers of the blocks, what is handed out is aligned, lies within an
allocation and overlaps nothing. -/
theorem pool_safe (system : SystemAlloc) (blockSize psz : Nat) (requests : List Request) :
    ∃ pool, (new blockSize psz).run system requests = some pool ∧ ((new blockSize psz).CalmRun system requests → pool.Safe) := by
  have goesOn (pool : BufPool) (request : Request) (_ : True) (_ : True) :
      ∃ pool', pool.step system request = some pool' ∧ True := by
    simpa using step_isSome system pool request
  obtain ⟨pool, done, -⟩ := Interleaving.run_invariant goesOn trivial requests
  refine ⟨pool, done, fun calm => ?_⟩
  obtain ⟨pool', done', inv⟩ := calm.run_invariant (fun pool request inv _ calm => Inv.step inv calm) (Inv.new blockSize psz)
  rw [Option.some.inj (done.symm.trans done')]
  exact inv.safe

/-- An allocator that goes upwards. -/
def upwards : SystemAlloc where
  reply _ live _ align := if align = 0 then none else some (align * (1 + live.foldr (fun r top => max r.stop top) 0))
  aligned given := by
    split at given
    · cases given
    · cases given
      exact Nat.dvd_mul_right ..
  fresh {call live size align p} given r member := by
    split at given
    · cases given
    cases given
    have top : r.stop ≤ live.foldr (fun r top => max r.stop top) 0 := by
      induction live with
      | nil => cases member
      | cons first live ih =>
        rcases mem_cons.mp member with rfl | member
        · exact le_max_left ..
        · exact (ih member).trans (le_max_right ..)
    refine .inr (top.trans ((Nat.le_add_left _ 1).trans (Nat.le_mul_of_pos_left _ ?_)))
    omega

/-- A request for a page. -/
def pageRequest : Request := ⟨4096, 16, ⟨4, rfl⟩, by decide⟩

def smallRequest : Request := ⟨100, 8, ⟨3, rfl⟩, by decide⟩

theorem smallRequest_safe : (new 4096 4096).CalmRun upwards [smallRequest] ∧
    ∃ pool, (new 4096 4096).run upwards [smallRequest] = some pool ∧ pool.Safe := by
  have fits : (new 4096 4096).Fits 100 16 := show 32 + (16 - 1) + 100 ≤ 4096 by decide
  have calm : (new 4096 4096).CalmRun upwards [smallRequest] := .cons trivial (.inr fits) rfl trivial
  obtain ⟨pool, done, safe⟩ := pool_safe upwards 4096 4096 [smallRequest]
  exact ⟨calm, pool, done, safe calm⟩

/-- A page does not fit behind the header of a block of a page, yet it is handed out there. -/
theorem pageRequest_overruns : ∃ pool, (new 4096 4096).run upwards [pageRequest] = some pool ∧ ¬ pool.Safe := by
  refine ⟨_, rfl, fun safe => ?_⟩
  have inside := safe.inside ⟨⟨48, 4096⟩, .returned 16, 16⟩ (by decide)
  obtain ⟨r, member, inside⟩ := inside
  obtain rfl := mem_singleton.mp member
  exact absurd inside.2 (show ¬ 48 + 4096 ≤ 8 + 4096 by decide)

end BufPool

end FiberGateway
