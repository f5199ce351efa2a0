import Marginalia.Proofs.Config
import Marginalia.Proofs.Session.Lookup
import Marginalia.Session.Ids

/-!
# Random ids

A draw ends in one of three ways (`Session.Drawn`): with the first block of digits that is no
fragment's id, with a fault after the last attempt when every block is one, or when the system
refuses to tell whether a block is. `Session.rollId` draws from a stream that is read digit by
digit, so that its place in the stream counts the digits used. It gives what `Session.drawFrom`
gives, and it reads the blocks in a row and none but those that were tried (`drawFrom_drawn`).
-/

namespace Marginalia

/-! ## Reading digits -/

/-- Work on a stream of digits. The state is the place in it. -/
abbrev Rolling := ExceptT Fault (StateM Nat)

namespace Rolling

variable (digits : Nat → Char)

def digit : Rolling Char := do
  let place ← get
  set (place + 1)
  pure (digits place)

/-- The next digits, one after the other. -/
def next : Nat → Rolling Text
  | 0 => pure []
  | n + 1 => do
    let c ← digit digits
    pure (c :: (← next n))

theorem run_digit (place : Nat) : (digit digits).run place = (.ok (digits place), place + 1) := rfl

theorem run_next (n place : Nat) : (next digits n).run place =
    (.ok ((List.range n).map fun k => digits (place + k)), place + n) := by
  induction n generalizing place with
  | zero => rfl
  | succ n ih =>
    rw [next, Work.run_bind_of_ok (run_digit digits place), Work.run_bind_of_ok (ih (place + 1)),
      Work.run_pure, List.range_succ_eq_map, List.map_cons, List.map_map,
      Nat.add_assoc, Nat.add_comm 1]
    have hrest : ∀ k, digits (place + 1 + k) = ((fun k => digits (place + k)) ∘ Nat.succ) k :=
      fun k => congrArg digits (by omega)
    rw [funext hrest]
    rfl

end Rolling

namespace Session

/-- Draws an id from the stream, in as many attempts as are left. -/
def rollId (s : Session) (t : Tree) (digits : Nat → Char) (size : Nat) : Nat → Rolling Text
  | 0 => throw (.idsTaken size mostAttempts)
  | left + 1 => do
    let id ← Rolling.next digits size
    match s.hasFragment t id with
    | .ok true => rollId s t digits size left
    | .ok false => pure id
    | .error f => throw f

variable {s : Session} {t : Tree} {digits : Nat → Char} {size left attempt k used : Nat}
  {r : Except Fault Draw}

theorem run_next_block : (Rolling.next digits size).run (attempt * size) =
    (.ok (block digits size attempt), (attempt + 1) * size) := by
  rw [Rolling.run_next, Nat.succ_mul]
  rfl

/-! ## How a draw ends -/

/-- The first blocks are ids of fragments. -/
def TakenBefore (s : Session) (t : Tree) (digits : Nat → Char) (size k : Nat) : Prop :=
  ∀ j < k, ∃ p, s.locate t (block digits size j) = .ok (some p)

theorem TakenBefore.zero : TakenBefore s t digits size 0 :=
  fun _ hj => absurd hj (Nat.not_lt_zero _)

theorem TakenBefore.succ {p : Path} (h : TakenBefore s t digits size k)
    (hp : s.locate t (block digits size k) = .ok (some p)) :
    TakenBefore s t digits size (k + 1) := by
  intro j hj
  rcases Nat.lt_succ_iff_lt_or_eq.mp hj with hj | rfl
  · exact h j hj
  · exact ⟨p, hp⟩

/-- What a draw ends with, and after how many blocks. -/
inductive Drawn (s : Session) (t : Tree) (digits : Nat → Char) (size : Nat) :
    Except Fault Draw → Nat → Prop
  /-- The first block that is no fragment's id. -/
  | free {k : Nat} (hk : k < mostAttempts) (before : TakenBefore s t digits size k)
    (here : s.locate t (block digits size k) = .ok none) :
    Drawn s t digits size (.ok { id := block digits size k, attempts := k + 1 }) (k + 1)
  /-- All of them are. -/
  | taken (all : TakenBefore s t digits size mostAttempts) :
    Drawn s t digits size (.error (.idsTaken size mostAttempts)) mostAttempts
  /-- The system does not let a block be looked up. -/
  | refused {k : Nat} {f : Fault} (hk : k < mostAttempts) (before : TakenBefore s t digits size k)
    (here : s.locate t (block digits size k) = .error f) :
    Drawn s t digits size (.error f) (k + 1)

theorem Drawn.used_le (h : Drawn s t digits size r used) : used ≤ mostAttempts := by
  cases h with
  | free hk => exact hk
  | taken => exact Nat.le_refl _
  | refused hk => exact hk

/-- From an attempt on, when the blocks before are taken, the attempts left give what the draw ends
with, and the stream is read up to the last block that was tried. -/
theorem drawFrom_drawn (hleft : attempt + left = mostAttempts)
    (htaken : TakenBefore s t digits size attempt) :
    ∃ used, Drawn s t digits size (s.drawFrom t digits size left attempt) used ∧
      (s.rollId t digits size left).run (attempt * size) =
        ((s.drawFrom t digits size left attempt).map Draw.id, used * size) := by
  -- one attempt fewer is left, and one block more is known to be taken
  induction left generalizing attempt with
  | zero =>
    obtain rfl : attempt = mostAttempts := hleft
    exact ⟨mostAttempts, .taken htaken, rfl⟩
  | succ left ih =>
    rw [rollId, Work.run_bind_of_ok run_next_block, drawFrom]
    have hk : attempt < mostAttempts := by omega
    unfold hasFragment
    cases hlocate : s.locate t (block digits size attempt) with
    | error f => exact ⟨attempt + 1, .refused hk htaken hlocate, rfl⟩
    | ok found =>
      cases found with
      | none => exact ⟨attempt + 1, .free hk htaken hlocate, rfl⟩
      | some p => exact ih (by omega) (htaken.succ hlocate)

/-! ## Lengths -/

theorem randomId_integer (length : Option Int) : s.randomId t digits (length.map .integer) =
    s.drawFrom t digits (Config.clamp (length.getD s.config.idLength)).toNat mostAttempts 0 := by
  cases length <;> rfl

theorem length_block : (block digits size k).length = size := by
  rw [block, List.length_map, List.length_range]

theorem isId_block (hdigits : ∀ i, isAsciiDigit (digits i) = true) (hleast : 6 ≤ size)
    (hgreatest : size ≤ 32) : isId (block digits size k) = true := by
  refine isId_iff.mpr ⟨List.ne_nil_of_length_pos ?_, ?_, fun c hc => ?_⟩
  · rw [length_block]
    omega
  · rw [length_block]
    exact hgreatest
  · obtain ⟨j, -, rfl⟩ := List.mem_map.mp hc
    exact hdigits _

/-- Whether an id is taken can be told, where the session has a folder of sets only if the paths in
it are not too long. -/
theorem locate_total (hw : t.WellFormed)
    (hfits : ∀ home, s.folder? = some home → Tree.Fits home 300) {id : Text}
    (hid : isId id = true) : ∃ p, s.locate t id = .ok p := by
  cases hs : s.folder? with
  | none => exact ⟨none, by simp [locate, fragmentFolders, hs, firstWith, ask, bind, Except.bind,
      Except.mapError]⟩
  | some home =>
    obtain ⟨b, hb⟩ := hasFragment_total hw hs (hfits home hs) hid
    obtain ⟨p, hp, -⟩ := hasFragment_eq_ok_iff.mp hb
    exact ⟨p, hp⟩

/-- An id that is not located has no file in the folder of sets or in a folder there. -/
theorem noFile_of_locate (hw : t.WellFormed) {home : Path} {id : Text}
    (hs : s.folder? = some home) (hfolder : t.isFolder home = .ok true) (hid : isId id = true)
    (hnone : s.locate t id = .ok none) : NoFile home id t := by
  obtain ⟨l, hr, hl⟩ := Tree.isFolder_eq_true_iff.mp hfolder
  have hfree : s.hasFragment t id = .ok false := hasFragment_eq_ok_iff.mpr ⟨none, hnone, rfl⟩
  intro c
  rw [← Tree.resolve_eq_lead hr]
  exact no_file_of_hasFragment hw hs hr hl (digits_of_isId hid) hfree c

theorem Drawn.eq_ok {draw : Draw} (h : Drawn s t digits size (.ok draw) used) :
    draw.attempts = used ∧ s.locate t draw.id = .ok none ∧ ∃ k, draw.id = block digits size k := by
  cases h with
  | free _ _ here => exact ⟨rfl, here, _, rfl⟩

/-- When the blocks can be looked up, a draw ends with an id or after the last attempt. -/
theorem Drawn.answered (h : Drawn s t digits size r used)
    (hall : ∀ k < mostAttempts, ∃ p, s.locate t (block digits size k) = .ok p) :
    (∃ draw, r = .ok draw) ∨ r = .error (.idsTaken size mostAttempts) := by
  cases h with
  | free => exact .inl ⟨_, rfl⟩
  | taken => exact .inr rfl
  | @refused k _ hk _ here =>
    obtain ⟨p, hp⟩ := hall k hk
    cases hp.symm.trans here

/-! ## Draws -/

/-- How a random id is drawn in blocks of a size. -/
structure DrawsBlocks (s : Session) (t : Tree) (digits : Nat → Char) (size : Nat)
    (r : Except Fault Draw) (used : Nat) : Prop where
  range : 6 ≤ size ∧ size ≤ 32
  /-- The first of the 100 blocks that is no fragment's id is drawn. If there is none, the draw
  fails after the last, and it fails at a block that cannot be looked up. -/
  drawn : Drawn s t digits size r used
  bounded : used ≤ mostAttempts
  /-- What is read of the stream are the blocks that were tried. -/
  read : (s.rollId t digits size mostAttempts).run 0 = (r.map Draw.id, used * size)
  fresh : ∀ draw, r = .ok draw → isId draw.id = true ∧ draw.id.length = size ∧
    draw.attempts = used ∧ s.locate t draw.id = .ok none ∧
    (t.WellFormed → ∀ home, s.folder? = some home → t.isFolder home = .ok true →
      NoFile home draw.id t)
  answered : (∀ k < mostAttempts, ∃ p, s.locate t (block digits size k) = .ok p) →
    (∃ draw, r = .ok draw) ∨ r = .error (.idsTaken size mostAttempts)
  /-- Where paths in the folder of sets are not too long, every block can be looked up. -/
  roomy : t.WellFormed → (∀ home, s.folder? = some home → Tree.Fits home 300) →
    ∀ k, ∃ p, s.locate t (block digits size k) = .ok p

/-- Random ids of whole lengths are drawn in blocks of the length asked for, or else of the one in
the settings, brought into 6 to 32, and the tree stays as it is. -/
theorem randomId_drawn (s : Session) (t : Tree) (digits : Nat → Char)
    (hdigits : ∀ i, isAsciiDigit (digits i) = true) (length : Option Int) :
    ∃ size : Nat, (size : Int) = Config.clamp (length.getD s.config.idLength) ∧
      ∃ r used, DrawsBlocks s t digits size r used ∧
        (Work.inspect fun u => s.randomId u digits (length.map .integer)).run t = (r, t) := by
  obtain ⟨hleast, hgreatest⟩ : 6 ≤ Config.clamp (length.getD s.config.idLength) ∧
      Config.clamp (length.getD s.config.idLength) ≤ 32 := Config.clamp_range _
  obtain ⟨size, hsize⟩ := Int.eq_ofNat_of_zero_le (Int.le_trans (by decide) hleast)
  rw [hsize] at hleast hgreatest
  have hid k : isId (block digits size k) = true := isId_block hdigits (by omega) (by omega)
  have hrandom (u : Tree) : s.randomId u digits (length.map .integer) =
      s.drawFrom u digits size mostAttempts 0 := by
    rw [randomId_integer, hsize, Int.toNat_natCast]
  have hzero : TakenBefore s t digits size 0 := .zero
  obtain ⟨used, hdrawn, hroll⟩ := drawFrom_drawn (Nat.zero_add mostAttempts) hzero
  rw [Nat.zero_mul] at hroll
  refine ⟨size, hsize.symm, _, used, ⟨⟨by omega, by omega⟩, hdrawn, hdrawn.used_le, hroll, ?_,
    hdrawn.answered, fun hw hfits k => locate_total hw hfits (hid k)⟩, ?_⟩
  · intro draw hdraw
    rw [hdraw] at hdrawn
    obtain ⟨hattempts, hnone, k, hk⟩ := hdrawn.eq_ok
    have hisId : isId draw.id = true := hk ▸ hid k
    exact ⟨hisId, hk ▸ length_block, hattempts, hnone, fun hw home hs hfolder =>
      noFile_of_locate hw hs hfolder hisId hnone⟩
  · rw [Work.run_inspect, hrandom]

/-- The session whose workspace is the whole disk. -/
def topSession : Session := { root := some { slashes := 1 } }

/-- A record of the id of zeros. -/
def zerosTaken : Tree :=
  ⟨[([".cms".toList], .folder), ([".cms".toList, "default".toList], .folder),
    ([".cms".toList, "default".toList, "000000.md".toList], .file (.text []))]⟩

/-- Twelve zeros and then ones. -/
def zerosAndOnes (i : Nat) : Char := if i < 12 then '0' else '1'

theorem zerosTaken_wellFormed : zerosTaken.WellFormed := by decide +kernel

theorem zerosTaken_located (k : Nat) :
    ∃ p, topSession.locate zerosTaken (block (fun _ => '0') 6 k) = .ok (some p) :=
  ⟨⟨1, [".cms".toList, "default".toList, "000000.md".toList]⟩, by
    show locate _ zerosTaken "000000".toList = _
    decide +kernel⟩

theorem randomId_drawn_zeros :
    ((Work.inspect fun t => randomId topSession t zerosAndOnes (some (.integer 3))).run zerosTaken =
        (.ok { id := "111111".toList, attempts := 3 }, zerosTaken) ∧
      (rollId topSession zerosTaken zerosAndOnes 6 mostAttempts).run 0 =
        (.ok "111111".toList, 18) ∧
      NoFile ⟨1, [".cms".toList]⟩ "111111".toList zerosTaken) ∧
    (Work.inspect fun t =>
      randomId topSession t (fun _ => '0') (some (.integer 6))).run zerosTaken =
        (.error (.idsTaken 6 100), zerosTaken) ∧
      (rollId topSession zerosTaken (fun _ => '0') 6 mostAttempts).run 0 =
        (.error (.idsTaken 6 100), 600) := by
  constructor
  · have hdigits : ∀ i, isAsciiDigit (zerosAndOnes i) = true := fun i => by
      unfold zerosAndOnes
      split <;> decide
    obtain ⟨size, hsize, r, used, hdraws, hrun⟩ :=
      randomId_drawn topSession zerosTaken zerosAndOnes hdigits (some 3)
    obtain rfl : size = 6 := Int.ofNat_inj.mp hsize
    have hr : r = .ok { id := "111111".toList, attempts := 3 } :=
      (congrArg Prod.fst hrun).symm.trans (by decide +kernel)
    obtain ⟨-, -, rfl, -, hno⟩ := hdraws.fresh _ hr
    have hroll := hdraws.read
    rw [hr] at hrun hroll
    exact ⟨hrun, hroll, hno zerosTaken_wellFormed _ rfl (by decide +kernel)⟩
  · obtain ⟨size, hsize, r, used, hdraws, hrun⟩ :=
      randomId_drawn topSession zerosTaken (fun _ => '0') (fun _ => by decide) (some 6)
    obtain rfl : size = 6 := Int.ofNat_inj.mp hsize
    have hroll := hdraws.read
    cases hdraws.drawn with
    | free _ _ here =>
      obtain ⟨p, hp⟩ := zerosTaken_located _
      cases hp.symm.trans here
    | taken => exact ⟨hrun, hroll⟩
    | refused _ _ here =>
      obtain ⟨p, hp⟩ := zerosTaken_located _
      cases hp.symm.trans here

/-- A session whose folder of sets has too long a name. -/
def longNamed : Session :=
  { root := some { slashes := 1 }, config := { folder := List.replicate 256 'n' } }

/-- No id can be looked up there, so the first block is neither drawn nor passed over. -/
theorem randomId_refused :
    (Work.inspect fun t => longNamed.randomId t (fun _ => '0') (some (.integer 6))).run {} =
      (.error (.disk .nameTooLong), {}) := by
  have h : longNamed.randomId {} (fun _ => '0') (some (.integer 6)) =
      .error (.disk .nameTooLong) := by decide +kernel
  rw [Work.run_inspect, h]

end Session
end Marginalia
