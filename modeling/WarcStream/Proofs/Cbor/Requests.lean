import WarcStream.Cbor.Reader
import Mathlib.Tactic.SplitIfs
/-!
# Requests that are met

`Reads` follows the machine from one request to the next, with the octets that
meet them. The machine counts the octets it is given (`at_take`). Reading an item
from a source is one request after the other (`State.pull_eq`).
-/

namespace WarcStream.Cbor

open Transport

/-- From one progress to another by these octets, which meet one request after the other. -/
inductive Reads : Progress → Bytes → Progress → Prop
  | refl (p : Progress) : Reads p [] p
  | step {s : State} {octets rest : Bytes} {q : Progress} :
      octets.length = s.wanted → Reads (s.take octets) rest q → Reads (.more s) (octets ++ rest) q

variable {p q r : Progress} {xs ys : Bytes} {s : State} {stack : List Open} {v w : Value}
variable {offset origin limit : Nat} {string : Running} {b : BufferedSource} {taken : Bytes}

theorem Reads.trans (hxs : Reads p xs q) (hys : Reads q ys r) : Reads p (xs ++ ys) r := by
  induction hxs with
  | refl => exact hys
  | step hlen _ ih =>
    rw [List.append_assoc]
    exact .step hlen (ih hys)

/-- One request. -/
theorem Reads.single (hlen : xs.length = s.wanted) : Reads (.more s) xs (s.take xs) := by
  have hone := Reads.step hlen (.refl (s.take xs))
  rwa [List.append_nil] at hone

/-- A value that has been read is the end. -/
theorem Reads.of_done (h : Reads (.done w) xs (.done v)) : xs = [] ∧ w = v := by
  cases h with
  | refl => exact ⟨rfl, rfl⟩

theorem Reads.ne_failed {e : Error} (h : Reads (.failed e) xs q) : q = .failed e := by
  cases h with
  | refl => rfl

/-! ## The octets taken are counted -/

/-- If more is asked for, this many octets have been taken. -/
def Progress.At (p : Progress) (offset : Nat) : Prop := ∀ s, p = .more s → s.offset = offset

theorem at_more (stack : List Open) (mode : Mode) (offset : Nat) :
    (Progress.more ⟨stack, mode, offset⟩).At offset := by
  rintro s ⟨rfl⟩
  rfl

theorem at_done (v : Value) (offset : Nat) : (Progress.done v).At offset := by
  intro s h
  cases h

theorem at_failed (e : Error) (offset : Nat) : (Progress.failed e).At offset := by
  intro s h
  cases h

theorem at_settle (offset : Nat) (stack : List Open) (v : Value) :
    (settle offset stack v).At offset := by
  fun_induction settle offset stack v with
  | case1 => exact at_done _ _
  | case2 _ _ _ ih | case5 _ _ _ _ ih => exact ih
  | case3 | case4 | case6 | case7 => exact at_more _ _ _

theorem at_startArray (count : Option Nat) : (startArray offset stack count).At offset := by
  unfold startArray
  split
  · exact at_failed _ _
  · split
    · exact at_settle _ _ _
    · exact at_more _ _ _
    · exact at_more _ _ _

theorem at_startMap (count : Option Nat) : (startMap offset stack count).At offset := by
  unfold startMap
  split
  · exact at_failed _ _
  · split
    · exact at_settle _ _ _
    · exact at_more _ _ _
    · exact at_more _ _ _

theorem at_endString : (endString offset origin stack string).At offset := by
  unfold endString
  split
  · exact at_failed _ _
  · split
    · exact at_settle _ _ _
    · exact at_failed _ _
  · split
    · exact at_settle _ _ _
    · exact at_failed _ _
  · split
    · exact at_more _ _ _
    · exact at_failed _ _

theorem at_endPart : (endPart offset origin stack string).At offset := by
  unfold endPart
  split
  · exact at_endString
  · exact at_more _ _ _

theorem at_startPart (length : Nat) : (startPart offset origin stack string length).At offset := by
  cases length with
  | zero => exact at_endPart
  | succ more => exact at_more _ _ _

theorem at_startString (purpose : Purpose) (length : Option Nat) :
    (startString offset origin stack purpose length).At offset := by
  cases length with
  | some length => exact at_startPart length
  | none => exact at_more _ _ _

theorem at_takePiece (left : Nat) (kept octets : Bytes) :
    (takePiece offset stack string left kept octets origin).At offset := by
  unfold takePiece
  simp only
  generalize (if string.purpose.isText = true then Text.completeLength (kept ++ octets)
    else List.length (kept ++ octets)) = whole
  split
  · exact at_failed _ _
  · split
    · exact at_more _ _ _
    · split
      · exact at_endPart
      · exact at_failed _ _

theorem at_takeValue (h : Header) : (takeValue offset stack h).At offset := by
  cases h with
  | positive n => exact at_settle _ _ _
  | negative n =>
    rw [takeValue]
    split
    · exact at_settle _ _ _
    · exact at_failed _ _
  | octets length => exact at_startString _ _
  | text length => exact at_startString _ _
  | array count => exact at_startArray _
  | map count => exact at_startMap _
  | tag n => exact at_more _ _ _
  | simple n =>
    rw [takeValue]
    split_ifs
    · exact at_settle _ _ _
    · exact at_settle _ _ _
    · exact at_settle _ _ _
    · exact at_failed _ _
  | real x => exact at_settle _ _ _
  | stop => exact at_failed _ _

theorem at_takeKey (start : Nat) (entries : List (String × Value)) (left : Option Nat)
    (plain : Bool) (h : Header) : (takeKey start offset stack entries left plain h).At offset := by
  unfold takeKey
  split
  · exact at_more _ _ _
  · split
    · exact at_settle _ _ _
    · exact at_failed _ _
  · split
    · split
      · split
        · exact at_startString _ _
        · exact at_failed _ _
      · exact at_failed _ _
    · exact at_startString _ _
  · exact at_failed _ _

theorem at_takeTagged (start tag : Nat) (h : Header) :
    (takeTagged start offset stack tag h).At offset := by
  have hother : (if maxDepth ≤ stack.length then Progress.failed .tooDeep
      else .failed .tagged).At offset := by
    split
    · exact at_failed _ _
    · exact at_failed _ _
  unfold takeTagged
  simp only
  generalize (if maxDepth ≤ stack.length then Progress.failed .tooDeep
    else .failed .tagged) = other at hother ⊢
  split
  · split
    · exact at_startString _ _
    · exact hother
  · exact hother

theorem at_part (start : Nat) (length : Option Nat) :
    (takePart.part start offset stack string length).At offset := by
  cases length with
  | some length => exact at_startPart length
  | none => exact at_more _ _ _

theorem at_takePart (start : Nat) (h : Header) :
    (takePart start offset stack string h).At offset := by
  unfold takePart
  split
  · exact at_endPart
  · split
    · exact at_part _ _
    · exact at_failed _ _
  · split
    · exact at_failed _ _
    · exact at_part _ _
  · exact at_failed _ _

theorem at_takeHeader (start : Nat) (slot : Slot) (h : Header) :
    (takeHeader start offset stack slot h).At offset := by
  cases slot with
  | value => exact at_takeValue h
  | item =>
    unfold takeHeader
    simp only
    split
    · exact at_settle _ _ _
    · exact at_takeValue _
  | key entries left plain => exact at_takeKey _ _ _ _ _
  | tagged tag => exact at_takeTagged _ _ _
  | part string => exact at_takePart _ _

theorem at_takeArgument (slot : Slot) (first : UInt8) (argument : Bytes) :
    (takeArgument offset stack slot first argument).At offset := by
  unfold takeArgument
  simp only
  split
  · exact at_takeHeader _ _ _
  · exact at_failed _ _

/-- **The octets taken are counted**, whatever the machine makes of them. -/
theorem at_take (s : State) (octets : Bytes) : (s.take octets).At (s.offset + octets.length) := by
  unfold State.take
  simp only
  split
  · split
    · exact at_failed _ _
    · exact at_takeArgument _ _ _
    · exact at_more _ _ _
  · exact at_takeArgument _ _ _
  · exact at_takePiece _ _ _

/-! ## Reading from a source -/

/-- The equation of reading an item. -/
theorem State.pull_eq (s : State) (limit : Nat) (taken : Bytes) (b : BufferedSource) :
    s.pull limit taken b =
      match b.gather limit s.offset s.wanted with
      | (octets, some shortfall, next) =>
        (.ofShortfall shortfall, octets.reverseAux taken, next)
      | (octets, none, next) =>
        match s.take octets with
        | .more later => later.pull limit (octets.reverseAux taken) next
        | .done v => (.done v, octets.reverseAux taken, next)
        | .failed e => (.failed e, octets.reverseAux taken, next) := by
  rw [State.pull]
  generalize b.gather limit s.offset s.wanted = answer
  obtain ⟨octets, shortfall | _, next⟩ := answer
  · rfl
  · rfl

theorem State.pull_of_shortfall {octets : Bytes} {shortfall : Shortfall} {next : BufferedSource}
    (h : b.gather limit s.offset s.wanted = (octets, some shortfall, next)) :
    s.pull limit taken b = (.ofShortfall shortfall, octets.reverseAux taken, next) := by
  rw [pull_eq, h]

theorem State.pull_of_more {octets : Bytes} {next : BufferedSource} {later : State}
    (h : b.gather limit s.offset s.wanted = (octets, none, next))
    (htake : s.take octets = .more later) :
    s.pull limit taken b = later.pull limit (octets.reverseAux taken) next := by
  rw [pull_eq, h]
  simp only [htake]

theorem State.pull_of_done {octets : Bytes} {next : BufferedSource}
    (h : b.gather limit s.offset s.wanted = (octets, none, next))
    (htake : s.take octets = .done v) :
    s.pull limit taken b = (.done v, octets.reverseAux taken, next) := by
  rw [pull_eq, h]
  simp only [htake]

end WarcStream.Cbor
