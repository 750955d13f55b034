import SqueezeboxConnect.Runs
import SqueezeboxConnect.Cursors

/-!
# The part of a stream behind its header

`Subfile` gives the decoder the part of a stream from `offset` on. It passes
reads on and translates seeks, each form in its own way: `Start` is moved by the
offset, `Current` and `End` are passed on as they are, `End` after a check of its
own. The integers are those of the source, and their operations wrap. The stream
is a cursor that accepts the first `limit` positions; the view it is meant to
give is a cursor of the same kind over the bytes from the offset on.
-/

namespace Subfiles

open Cursors Runs

structure Subfile where
  stream : Cursor UInt8
  offset : UInt64
  length : UInt64
  deriving DecidableEq

namespace Subfile

def new (limit : Nat) (stream : Cursor UInt8) (offset length : UInt64) : Option Subfile :=
  match stream.seek limit (.start offset) with
  | (some _, stream) => some ⟨stream, offset, length⟩
  | (none, _) => none

def read (s : Subfile) (size : Nat) : List UInt8 × Subfile :=
  ((s.stream.read size).1, { s with stream := (s.stream.read size).2 })

/-- The seek that is passed on; `none` is one refused with "newpos would be < self.offset". -/
def translated (s : Subfile) : SeekFrom → Option SeekFrom
  | .start n => some (.start (n + s.offset))
  | .end d => if s.length.toInt64 - d < s.offset.toInt64 then none else some (.end d)
  | .current d => some (.current d)

/-- What the stream answers, from which the offset is then subtracted. -/
def newpos (limit : Nat) (s : Subfile) (pos : SeekFrom) : Option Nat :=
  match s.translated pos with
  | none => none
  | some pos => (s.stream.seek limit pos).1

def seek (limit : Nat) (s : Subfile) (pos : SeekFrom) : Option UInt64 × Subfile :=
  match s.translated pos with
  | none => (none, s)
  | some pos =>
    ((s.stream.seek limit pos).1.map fun newpos => UInt64.ofNat newpos - s.offset,
      { s with stream := (s.stream.seek limit pos).2 })

def byteLen (s : Subfile) : Option UInt64 := some s.length

def call (limit : Nat) (s : Subfile) : Call → Answer UInt8 × Subfile
  | .read size => (.bytes (s.read size).1, (s.read size).2)
  | .seek pos => (.position ((s.seek limit pos).1.map UInt64.toNat), (s.seek limit pos).2)

/-- The subtraction of the offset does not underflow. -/
def NoUnderflow (limit : Nat) (s : Subfile) : Call → Prop
  | .read _ => True
  | .seek pos => ∀ newpos, s.newpos limit pos = some newpos → s.offset.toNat ≤ newpos

/-- The view of the stream from the offset on. -/
def tail (s : Subfile) : Cursor UInt8 :=
  ⟨s.stream.bytes.drop s.offset.toNat, s.stream.pos - s.offset.toNat⟩

/-- The calls that the view would answer in the same way. -/
def InView (limit : Nat) (s : Subfile) : Call → Prop
  | .read _ => True
  | .seek (.start n) =>
    n.toNat + s.offset.toNat < limit ∨ limit ≤ n.toNat ∧ n.toNat + s.offset.toNat < 2 ^ 64
  | .seek (.current d) =>
    s.stream.pos + d.toInt < 0 ∨ limit + s.offset.toNat ≤ s.stream.pos + d.toInt ∨
      s.offset.toNat ≤ s.stream.pos + d.toInt ∧ s.stream.pos + d.toInt < limit
  | .seek (.end d) =>
    let length := s.stream.bytes.length
    let inner := (length - s.offset.toNat : Nat) + d.toInt
    if s.length.toInt64 - d < s.offset.toInt64 then inner < 0 ∨ limit ≤ inner
    else length + d.toInt < 0 ∨ limit ≤ inner ∨
      s.offset.toNat ≤ length ∧ s.offset.toNat ≤ length + d.toInt ∧ length + d.toInt < limit

/-- The calls are answered as by the view, without underflow, and the reported length is
that of the view. -/
def IsTail (limit : Nat) (s : Subfile) (calls : List Call) : Prop :=
  (answers (call limit) s calls = answers (Cursor.call limit) s.tail calls ∧
      Along (fun s c => (s.call limit c).2) (NoUnderflow limit) s calls) ∧
    s.byteLen.map UInt64.toNat = some s.tail.bytes.length

end Subfile

open Subfile

section Places

variable {limit offset : Nat}

/-- A place in the stream and one in the view are the same, or both refused. -/
def SamePlace (limit offset : Nat) (place inner : Int) : Prop :=
  (place < 0 ∨ limit ≤ place) ∧ (inner < 0 ∨ limit ≤ inner) ∨
    offset ≤ place ∧ place < limit ∧ inner = place - offset

/-- The position reported for a place in the stream. -/
theorem reported_eq_iff {offset : UInt64} (within : limit ≤ 2 ^ 64) (place inner : Int) :
    (((accepted limit place).map fun pos => UInt64.ofNat pos - offset).map UInt64.toNat =
          accepted limit inner ∧
        ∀ pos, accepted limit place = some pos → offset.toNat ≤ pos) ↔
      SamePlace limit offset.toNat place inner := by
  cases outer : accepted limit place with
  | none =>
    have refused := accepted_eq_none.mp outer
    constructor
    · rintro ⟨same, -⟩
      exact Or.inl ⟨refused, accepted_eq_none.mp same.symm⟩
    · rintro (⟨-, nothing⟩ | ⟨above, below, -⟩)
      · exact ⟨(accepted_eq_none.mpr nothing).symm, fun pos h => by cases h⟩
      · omega
  | some pos =>
    obtain ⟨here, below⟩ := accepted_eq_some.mp outer
    have sub_eq : offset.toNat ≤ pos → (UInt64.ofNat pos - offset).toNat = pos - offset.toNat := by
      intro above
      have value : (UInt64.ofNat pos).toNat = pos :=
        UInt64.toNat_ofNat_of_lt' (Nat.lt_of_lt_of_le below within)
      rw [UInt64.toNat_sub_of_le _ _ (UInt64.le_iff_toNat_le.mpr (by omega)), value]
    constructor
    · rintro ⟨same, safe⟩
      have above := safe pos rfl
      have inside : accepted limit inner = some (pos - offset.toNat) := by
        rw [← same, ← sub_eq above]
        rfl
      have := accepted_eq_some.mp inside
      exact Or.inr (by omega)
    · rintro (⟨refused, -⟩ | ⟨above, -, same⟩)
      · omega
      · have above' : offset.toNat ≤ pos := by omega
        refine ⟨?_, fun other h => by cases h; exact above'⟩
        have inside : accepted limit inner = some (pos - offset.toNat) :=
          accepted_eq_some.mpr (by omega)
        rw [inside, ← sub_eq above']
        rfl

end Places

/-- The view goes with the subfile while the stream does not stand before the offset. -/
structure Views (limit : Nat) (s : Subfile) (view : Cursor UInt8) : Prop where
  view_eq : view = s.tail
  behind : s.offset.toNat ≤ s.stream.pos
  offset_lt : s.offset.toNat < limit

section Steps

variable {limit : Nat} {s : Subfile} {view : Cursor UInt8}

/-- A seek leads to the place that it leads to in the view, or is refused as there. -/
def Lands (limit : Nat) (s : Subfile) (pos : SeekFrom) : Prop :=
  let inner := pos.target s.tail.bytes.length s.tail.pos
  match s.translated pos with
  | none => inner < 0 ∨ limit ≤ inner
  | some pos' =>
    SamePlace limit s.offset.toNat (pos'.target s.stream.bytes.length s.stream.pos) inner

theorem seek_agrees_iff (within : limit ≤ 2 ^ 64) (pos : SeekFrom) :
    ((s.call limit (.seek pos)).1 = (s.tail.call limit (.seek pos)).1 ∧
        NoUnderflow limit s (.seek pos)) ↔ Lands limit s pos := by
  unfold Lands
  cases passed : s.translated pos with
  | none =>
    simp only
    rw [← accepted_eq_none]
    simp [call, Cursor.call, NoUnderflow, newpos, Subfile.seek, passed, eq_comm]
  | some pos' =>
    simp only
    rw [← reported_eq_iff within]
    simp [call, Cursor.call, NoUnderflow, newpos, Subfile.seek, passed]

theorem seek_views {pos : SeekFrom} (views : Views limit s view) (lands : Lands limit s pos) :
    Views limit (s.call limit (.seek pos)).2 (view.call limit (.seek pos)).2 := by
  obtain ⟨rfl, behind, below⟩ := views
  unfold Lands at lands
  simp only [call, Cursor.call, Cursor.seek_snd, Subfile.seek]
  cases passed : s.translated pos with
  | none =>
    simp only [passed] at lands ⊢
    rw [accepted_eq_none.mpr lands]
    exact ⟨rfl, behind, below⟩
  | some pos' =>
    simp only [passed] at lands ⊢
    rcases lands with ⟨refused, nothing⟩ | ⟨above, inside, inner⟩
    · rw [accepted_eq_none.mpr refused, accepted_eq_none.mpr nothing]
      exact ⟨rfl, behind, below⟩
    · obtain ⟨n, place⟩ := Int.eq_ofNat_of_zero_le (Int.le_trans (Int.natCast_nonneg _) above)
      have outer : accepted limit (pos'.target s.stream.bytes.length s.stream.pos) = some n :=
        accepted_eq_some.mpr (by omega)
      have within : accepted limit (pos.target s.tail.bytes.length s.tail.pos) =
          some (n - s.offset.toNat) := accepted_eq_some.mpr (by omega)
      rw [outer, within]
      refine ⟨rfl, ?_, below⟩
      change s.offset.toNat ≤ n
      omega

theorem lands_iff_inView (within : limit ≤ 2 ^ 64) (views : Views limit s view) (pos : SeekFrom) :
    Lands limit s pos ↔ InView limit s (.seek pos) := by
  have behind := views.behind
  have below := views.offset_lt
  cases pos with
  | start n =>
    have bounded := n.toNat_lt
    simp only [Lands, translated, SamePlace, InView, SeekFrom.target, UInt64.toNat_add]
    omega
  | current d =>
    simp only [Lands, translated, SamePlace, InView, SeekFrom.target, tail]
    omega
  | «end» d =>
    simp only [Lands, translated, InView]
    by_cases refused : s.length.toInt64 - d < s.offset.toInt64
    · simp only [if_pos refused, SeekFrom.target, tail, List.length_drop]
    · simp only [if_neg refused, SamePlace, SeekFrom.target, tail, List.length_drop]
      omega

theorem read_agrees (size : Nat) (views : Views limit s view) :
    (s.read size).1 = (view.read size).1 ∧ Views limit (s.read size).2 (view.read size).2 := by
  obtain ⟨rfl, behind, below⟩ := views
  have same : (s.tail.read size).1 = (s.stream.read size).1 := by
    simp only [Cursor.read, tail, List.drop_drop]
    rw [Nat.add_sub_cancel' behind]
  have moved : (s.tail.read size).2.pos = s.tail.pos + (s.stream.read size).1.length := by
    rw [← same]
    rfl
  refine ⟨same.symm, congrArg (Cursor.mk _) ?_, ?_, below⟩
  · refine moved.trans ?_
    change s.stream.pos - s.offset.toNat + _ =
      s.stream.pos + (s.stream.read size).1.length - s.offset.toNat
    omega
  · change s.offset.toNat ≤ s.stream.pos + _
    omega

theorem call_agrees_iff (within : limit ≤ 2 ^ 64) (views : Views limit s view) (c : Call) :
    ((s.call limit c).1 = (view.call limit c).1 ∧ NoUnderflow limit s c) ↔ InView limit s c := by
  cases c with
  | read size =>
    refine ⟨fun _ => trivial, fun _ => ⟨?_, trivial⟩⟩
    exact congrArg Answer.bytes (read_agrees size views).1
  | seek pos =>
    rw [views.view_eq, seek_agrees_iff within, lands_iff_inView within views]

theorem call_views (within : limit ≤ 2 ^ 64) (views : Views limit s view) {c : Call}
    (inView : InView limit s c) : Views limit (s.call limit c).2 (view.call limit c).2 := by
  cases c with
  | read size => exact (read_agrees size views).2
  | seek pos => exact seek_views views ((lands_iff_inView within views pos).mpr inView)

theorem new_views {stream : Cursor UInt8} {offset length : UInt64}
    (opened : new limit stream offset length = some s) :
    Views limit s s.tail ∧ s.offset = offset ∧ s.length = length ∧
      s.stream.bytes = stream.bytes := by
  unfold new at opened
  cases found : stream.seek limit (.start offset) with
  | mk answer moved =>
    rw [found] at opened
    cases answer with
    | none => cases opened
    | some pos =>
      cases opened
      have place := Cursor.seek_fst limit stream (.start offset)
      have after := Cursor.seek_snd limit stream (.start offset)
      rw [found] at place after
      simp only [SeekFrom.target] at place after
      rw [← place] at after
      have inside := accepted_eq_some.mp place.symm
      subst after
      refine ⟨⟨rfl, ?_, ?_⟩, rfl, rfl, rfl⟩
      · change offset.toNat ≤ pos
        omega
      · change offset.toNat < limit
        omega

end Steps

/-- A subfile is the view of the stream from its offset on exactly if the length it was
given is that of the view and every seek stays in it. -/
theorem isTail_iff {limit : Nat} (within : limit ≤ 2 ^ 64) {stream : Cursor UInt8}
    {offset length : UInt64} {s : Subfile} (opened : new limit stream offset length = some s)
    (calls : List Call) :
    IsTail limit s calls ↔
      Along (fun s c => (s.call limit c).2) (InView limit) s calls ∧
        length.toNat = stream.bytes.length - offset.toNat := by
  obtain ⟨views, rfl, rfl, bytes⟩ := new_views opened
  have lockstep : answers (call limit) s calls = answers (Cursor.call limit) s.tail calls ∧
        Along (fun s c => (s.call limit c).2) (NoUnderflow limit) s calls ↔
      Along (fun s c => (s.call limit c).2) (InView limit) s calls := by
    refine answers_eq_iff_along ?_ ?_ calls views
    · intro s view c views
      exact call_agrees_iff within views c
    · intro s view c views inView
      exact call_views within views inView
  unfold IsTail
  rw [lockstep]
  simp [byteLen, tail, bytes]

/-- Six bytes from the second on, with the length of the rest: reading two, going back by
one and to the start. -/
theorem rereading_isTail : new 16 ⟨[0, 1, 2, 3, 4, 5], 0⟩ 2 4 =
    some ⟨⟨[0, 1, 2, 3, 4, 5], 2⟩, 2, 4⟩ ∧
    IsTail 16 ⟨⟨[0, 1, 2, 3, 4, 5], 2⟩, 2, 4⟩
      [.read 2, .seek (.current (-1)), .read 1, .seek (.start 0)] := by
  have opened : new 16 ⟨[0, 1, 2, 3, 4, 5], 0⟩ 2 4 = some ⟨⟨[0, 1, 2, 3, 4, 5], 2⟩, 2, 4⟩ := rfl
  refine ⟨opened, (isTail_iff (by decide) opened _).mpr ⟨⟨trivial, ?_, trivial, ?_, trivial⟩, rfl⟩⟩
  · exact Or.inr (Or.inr (by decide))
  · exact Or.inl (by decide)

/-- The same with the length of the whole stream, as the player gives it: the seek goes
before the offset and underflows, and the length is too large. -/
theorem backwards_notTail : ∃ s, new 16 ⟨[0, 1, 2, 3, 4, 5], 0⟩ 2 6 = some s ∧
    ¬ IsTail 16 s [.seek (.current (-1))] := by
  refine ⟨⟨⟨[0, 1, 2, 3, 4, 5], 2⟩, 2, 6⟩, rfl, ?_⟩
  rintro ⟨⟨-, safe, -⟩, -⟩
  have above : 2 ≤ 1 := safe 1 rfl
  omega

end Subfiles
