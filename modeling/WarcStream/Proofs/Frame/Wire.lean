import WarcStream.Frame.Writer
import WarcStream.Proofs.Frame.Runs
/-!
# Frames on the wire

What is cut out of a stream at its delimiters are the segments of its frames,
one for each that is not blank, as long as no segment holds a delimiter
(`solid_splitOn_flatMap`). Where no payload holds a control character or starts
with a blank, the start of a frame gives the part of its payload that is there
(`solid_splitOn_start`).
-/

namespace WarcStream

open Bytes

namespace Framing

variable {f : Framing} {payload : Bytes}

/-- The segment a payload is read back as. -/
def segment : Framing → Bytes → Bytes
  | .recordSeparated, payload => payload ++ [Bytes.lineFeed]
  | .lineDelimited, payload => payload

theorem length_segment (f : Framing) (payload : Bytes) :
    (f.segment payload).length = f.segmentLength payload.length := by
  cases f <;> simp [segment, segmentLength]

/-- The segment of a payload is blank where the payload is. -/
theorem allBlank_segment (f : Framing) (payload : Bytes) :
    allBlank (f.segment payload) = allBlank payload := by
  have hline : isBlank Bytes.lineFeed = true := by decide
  cases f <;> simp [segment, allBlank, hline]

/-- The octet that the stream is cut at is reserved. -/
theorem isReserved_delimiter (f : Framing) : f.isReserved f.delimiter = true := by
  cases f <;> decide

/-- What is found is the first reserved octet of a payload, in its place. -/
theorem exists_of_firstReserved? {b : UInt8} {offset : Nat}
    (h : f.firstReserved? payload = some (b, offset)) :
    ∃ before after, payload = before ++ b :: after ∧ before.length = offset ∧
      f.isReserved b = true ∧ ∀ c ∈ before, f.isReserved c = false := by
  induction payload generalizing offset with
  | nil => cases h
  | cons c rest ih =>
    rw [firstReserved?] at h
    split at h
    · rename_i hreserved
      cases h
      exact ⟨[], rest, rfl, rfl, hreserved, by simp⟩
    · rename_i hfree
      obtain ⟨⟨_, n⟩, hfound, hsame⟩ := Option.map_eq_some_iff.1 h
      cases hsame
      obtain ⟨before, after, rfl, rfl, hb, hbefore⟩ := ih hfound
      exact ⟨c :: before, after, rfl, rfl, hb,
        List.forall_mem_cons.2 ⟨Bool.eq_false_iff.2 hfree, hbefore⟩⟩

/-- Nothing is found where no octet is reserved. -/
theorem firstReserved?_eq_none_iff :
    f.firstReserved? payload = none ↔ ∀ b ∈ payload, f.isReserved b = false := by
  induction payload with
  | nil => simp [firstReserved?]
  | cons b rest ih =>
    rw [firstReserved?, List.forall_mem_cons, ← ih]
    cases f.isReserved b <;> simp

/-- A payload is not ambiguous where it holds no reserved octet. -/
theorem checkPayload_eq_ok_iff :
    f.checkPayload payload = .ok () ↔ ∀ b ∈ payload, f.isReserved b = false := by
  rw [← firstReserved?_eq_none_iff, checkPayload]
  cases f.firstReserved? payload <;> simp

/-- A payload without control characters is not ambiguous. -/
theorem checkPayload_of_le (h : ∀ b ∈ payload, 0x20 ≤ b) : f.checkPayload payload = .ok () := by
  refine checkPayload_eq_ok_iff.2 fun b hb => ?_
  have hle := h b hb
  have hline : b ≠ Bytes.lineFeed := by
    rintro rfl
    exact absurd hle (by decide)
  have hrecord : b ≠ Bytes.recordSeparator := by
    rintro rfl
    exact absurd hle (by decide)
  cases f <;> simp [isReserved, hline, hrecord]

/-- A payload that is not ambiguous has a segment that is cut nowhere. -/
theorem delimiter_notMem_segment (h : f.checkPayload payload = .ok ()) :
    f.delimiter ∉ f.segment payload := by
  have hpayload : f.delimiter ∉ payload := fun hmem => by
    have hfree := checkPayload_eq_ok_iff.1 h _ hmem
    rw [isReserved_delimiter] at hfree
    cases hfree
  cases f with
  | recordSeparated =>
    rw [segment, List.mem_append]
    exact not_or.2 ⟨hpayload, by decide⟩
  | lineDelimited => exact hpayload

/-- A payload that cannot be mistaken for anything else: it starts with an octet that is no blank,
and no octet is a control character. -/
structure IsPlain (payload : Bytes) : Prop where
  le_of_mem : ∀ b ∈ payload, 0x20 ≤ b
  start : ∃ b rest, payload = b :: rest ∧ isBlank b = false

theorem IsPlain.ne_nil (h : IsPlain payload) : payload ≠ [] := by
  obtain ⟨b, rest, rfl, -⟩ := h.start
  simp

theorem IsPlain.delimiter_notMem (h : IsPlain payload) (f : Framing) : f.delimiter ∉ payload := by
  intro hmem
  have hle := h.le_of_mem _ hmem
  cases f <;> exact absurd hle (by decide)

/-- Whatever there is of the payload is not blank. -/
theorem IsPlain.allBlank_start {part rest : Bytes} (h : IsPlain payload)
    (hpart : payload = part ++ rest) (hne : part ≠ []) : allBlank part = false := by
  obtain ⟨b, more, rfl, hb⟩ := h.start
  obtain ⟨c, part, rfl⟩ := List.exists_cons_of_ne_nil hne
  obtain ⟨rfl, -⟩ := List.cons.inj hpart
  simp [allBlank, hb]

/-- The framing cuts the payload out of a stream: its segment holds no delimiter and is not
blank. -/
structure Cuts (f : Framing) (payload : Bytes) : Prop where
  free : f.delimiter ∉ f.segment payload
  solid : allBlank (f.segment payload) = false

theorem IsPlain.cuts (h : IsPlain payload) (f : Framing) : f.Cuts payload := by
  refine ⟨delimiter_notMem_segment (checkPayload_of_le h.le_of_mem), ?_⟩
  rw [allBlank_segment]
  exact h.allBlank_start (List.append_nil _).symm h.ne_nil

/-- Nothing is on the wire, or the start of a frame. -/
def Starts (f : Framing) (wire : Bytes) : Prop := wire = [] ∨ ∃ more, wire = f.opening ++ more

/-- The record separator in front closes an empty run. -/
theorem splitOn_separator (wire : Bytes) :
    (recordSeparator :: wire).splitOn Framing.recordSeparated.delimiter =
      [] :: wire.splitOn Framing.recordSeparated.delimiter :=
  splitOn_append_cons (show Framing.recordSeparated.delimiter ∉ ([] : Bytes) by simp)

/-- The runs of a frame and what is behind it. The record separator closes an empty run. -/
theorem splitOn_frame {rest : Bytes} (hsegment : f.delimiter ∉ f.segment payload)
    (hrest : f.Starts rest) :
    ∃ before behind, (f.frame payload ++ rest).splitOn f.delimiter =
        before ++ f.segment payload :: behind ∧
      (∀ run ∈ before, run = []) ∧ solid behind = solid (rest.splitOn f.delimiter) ∧
      ∀ run ∈ behind, run ∈ rest.splitOn f.delimiter := by
  cases f with
  | recordSeparated =>
    have hframe : Framing.recordSeparated.frame payload ++ rest =
        recordSeparator :: (Framing.recordSeparated.segment payload ++ rest) := by
      simp [frame, opening, segment]
    rw [hframe, splitOn_separator]
    rcases hrest with rfl | ⟨more, rfl⟩
    · refine ⟨[[]], [], ?_, by simp, rfl, by simp⟩
      rw [List.append_nil, List.splitOn_eq_singleton hsegment]
      rfl
    · have hmore : Framing.recordSeparated.opening ++ more = recordSeparator :: more := rfl
      rw [hmore, splitOn_separator]
      refine ⟨[[]], more.splitOn Framing.recordSeparated.delimiter, ?_, by simp, rfl, ?_⟩
      · refine congrArg (List.cons []) ?_
        exact splitOn_append_cons hsegment
      · exact fun run hrun => List.mem_cons_of_mem _ hrun
  | lineDelimited =>
    have hframe : Framing.lineDelimited.frame payload ++ rest = payload ++ lineFeed :: rest := by
      simp [frame, opening]
    refine ⟨[], rest.splitOn lineFeed, ?_, by simp, rfl, fun _ hrun => hrun⟩
    rw [hframe]
    exact splitOn_append_cons hsegment

/-- **A frame is cut out as its segment**, unless that is blank. -/
theorem solid_splitOn_frame_append {rest : Bytes} (h : f.delimiter ∉ f.segment payload)
    (hrest : f.Starts rest) :
    solid ((f.frame payload ++ rest).splitOn f.delimiter) =
      solid [f.segment payload] ++ solid (rest.splitOn f.delimiter) := by
  obtain ⟨before, behind, hsplit, hbefore, hbehind, -⟩ := splitOn_frame h hrest
  have hnone : solid before = [] := by
    refine List.filter_eq_nil_iff.2 fun run hrun => ?_
    rw [hbefore run hrun]
    decide
  rw [hsplit, solid_append, hnone, List.nil_append, ← hbehind, ← solid_append]
  rfl

theorem solid_splitOn_frame {rest : Bytes} (h : f.Cuts payload) (hrest : f.Starts rest) :
    solid ((f.frame payload ++ rest).splitOn f.delimiter) =
      f.segment payload :: solid (rest.splitOn f.delimiter) := by
  have hone : solid [f.segment payload] = [f.segment payload] :=
    List.filter_cons_of_pos (by simp [h.solid])
  rw [solid_splitOn_frame_append h.free hrest, hone, List.singleton_append]

/-- A frame within the limit does not keep what is behind it from fitting. -/
theorem fits_frame {rest : Bytes} {limit : Nat} (h : f.delimiter ∉ f.segment payload)
    (hrest : f.Starts rest) (hlimit : f.segmentLength payload.length ≤ limit)
    (hfits : Fits f.delimiter limit rest) : Fits f.delimiter limit (f.frame payload ++ rest) := by
  obtain ⟨before, behind, hsplit, hbefore, -, hmem⟩ := splitOn_frame h hrest
  intro run hrun
  rw [hsplit] at hrun
  rcases List.mem_append.1 hrun with hrun | hrun
  · rw [hbefore run hrun]
    exact Nat.zero_le _
  rcases List.mem_cons.1 hrun with rfl | hrun
  · rwa [length_segment]
  · exact hfits run (hmem run hrun)

/-- The frames of payloads, one behind the other, start with a frame if there is any. -/
theorem starts_frames (f : Framing) (payloads : List Bytes) :
    f.Starts (payloads.flatMap f.frame) := by
  cases payloads with
  | nil => exact .inl rfl
  | cons payload rest =>
    refine .inr ⟨payload ++ [lineFeed] ++ rest.flatMap f.frame, ?_⟩
    rw [List.flatMap_cons, frame]
    simp only [List.append_assoc]

/-- **Frames are cut out as their segments**, one for each payload whose segment is not blank. -/
theorem solid_splitOn_flatMap {payloads : List Bytes}
    (h : ∀ payload ∈ payloads, f.delimiter ∉ f.segment payload) :
    solid ((payloads.flatMap f.frame).splitOn f.delimiter) = solid (payloads.map f.segment) := by
  induction payloads with
  | nil => rfl
  | cons payload rest ih =>
    obtain ⟨hpayload, hrest⟩ := List.forall_mem_cons.1 h
    rw [List.flatMap_cons, solid_splitOn_frame_append hpayload (f.starts_frames rest), ih hrest,
      ← solid_append]
    rfl

theorem solid_splitOn_frames {payloads : List Bytes} (h : ∀ payload ∈ payloads, f.Cuts payload) :
    solid ((payloads.flatMap f.frame).splitOn f.delimiter) = payloads.map f.segment := by
  rw [solid_splitOn_flatMap fun payload hpayload => (h payload hpayload).free]
  refine List.filter_eq_self.2 (List.forall_mem_map.2 fun payload hpayload => ?_)
  rw [(h payload hpayload).solid]
  rfl

/-- Frames within the limit make a stream that fits. -/
theorem fits_frames {payloads : List Bytes} {limit : Nat}
    (h : ∀ payload ∈ payloads, f.delimiter ∉ f.segment payload)
    (hlimit : ∀ payload ∈ payloads, f.segmentLength payload.length ≤ limit) :
    Fits f.delimiter limit (payloads.flatMap f.frame) := by
  induction payloads with
  | nil => simp [Fits]
  | cons payload rest ih =>
    obtain ⟨hpayload, hrest⟩ := List.forall_mem_cons.1 h
    obtain ⟨hsmall, hsmaller⟩ := List.forall_mem_cons.1 hlimit
    rw [List.flatMap_cons]
    exact fits_frame hpayload (f.starts_frames rest) hsmall (ih hrest hsmaller)

/-- **The start of a frame** is cut out as the part of the payload that is there. -/
theorem solid_splitOn_start {n : Nat} (h : IsPlain payload)
    (hn : n ≤ f.opening.length + payload.length) :
    solid (((f.frame payload).take n).splitOn f.delimiter) =
      if payload.take (n - f.opening.length) = [] then []
      else [payload.take (n - f.opening.length)] := by
  let part := payload.take (n - f.opening.length)
  have hpart : payload = part ++ payload.drop (n - f.opening.length) :=
    (List.take_append_drop _ _).symm
  have hfree : f.delimiter ∉ part := fun hmem =>
    h.delimiter_notMem f (List.mem_of_mem_take hmem)
  have hsolid : solid [part] = if part = [] then [] else [part] := by
    by_cases hnil : part = []
    · rw [if_pos hnil, hnil]
      rfl
    · rw [if_neg hnil]
      simp [solid, h.allBlank_start hpart hnil]
  have htake : (f.frame payload).take n = f.opening.take n ++ part := by
    rw [frame, List.append_assoc, List.take_append, List.take_append_of_le_length (by omega)]
  rw [htake, ← hsolid]
  cases f with
  | recordSeparated =>
    rcases Nat.eq_zero_or_pos n with rfl | hpos
    · have hnil : part = [] := by simp [part]
      rw [hnil, List.take_zero, List.append_nil, List.splitOn_nil]
    · have hopening : Framing.recordSeparated.opening.take n = [recordSeparator] :=
        List.take_of_length_le hpos
      rw [hopening, List.singleton_append, splitOn_separator, List.splitOn_eq_singleton hfree]
      rfl
  | lineDelimited =>
    rw [opening, List.take_nil, List.nil_append, List.splitOn_eq_singleton hfree]

end Framing

/-- A payload that is not ambiguous is refused for its size alone. -/
theorem FrameConfig.encode_eq {c : FrameConfig} {payload : Bytes}
    (hclean : c.framing.checkPayload payload = .ok ()) :
    c.encode payload =
      if c.limit < c.framing.segmentLength payload.length then
        .error (.tooLarge (c.framing.segmentLength payload.length) c.limit)
      else .ok (c.framing.frame payload) := by
  rw [FrameConfig.encode, Framing.encode, Framing.checkSize, hclean]
  split <;> rfl

/-- What is encoded is the frame of a payload that is within the limit and not ambiguous. -/
theorem FrameConfig.of_encode_eq_ok {c : FrameConfig} {payload frame : Bytes}
    (h : c.encode payload = .ok frame) :
    frame = c.framing.frame payload ∧ c.framing.checkPayload payload = .ok () ∧
      c.framing.segmentLength payload.length ≤ c.limit := by
  cases hclean : c.framing.checkPayload payload with
  | ok _ =>
    rw [FrameConfig.encode_eq hclean] at h
    split at h
    · cases h
    · rename_i hwithin
      cases h
      exact ⟨rfl, rfl, Nat.le_of_not_lt hwithin⟩
  | error e =>
    rw [FrameConfig.encode, Framing.encode, hclean] at h
    cases hsize : c.framing.checkSize payload.length c.limit with
    | ok _ =>
      rw [hsize] at h
      cases h
    | error _ =>
      rw [hsize] at h
      cases h

end WarcStream
