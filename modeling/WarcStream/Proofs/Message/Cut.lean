import WarcStream.Proofs.Message.Fusing
import WarcStream.Proofs.Message.Writing
/-!
# A stream up to any octet

`MessageConfig.cut` says what the first octets of a stream hold: the messages
whose payload is there in whole, and the part of the next one that is there.
A reader of these octets yields the messages, and the part, if there is any,
as an error (`yields_cut`). No part of a payload is taken for a message, since
neither a JSON text nor an item may end before its end.
-/

namespace WarcStream

open Transport Bytes

namespace MessageConfig

variable {c : MessageConfig} {m : Message} {ms : List Message} {framing : Framing} {n : Nat}

/-- The messages whose payload is in the first `n` octets of the wire, and the part of the payload
behind them that is. -/
def cut (c : MessageConfig) : List Message → (n : Nat) → List Message × Bytes
  | [], _ => ([], [])
  | m :: ms, n =>
    if (c.frame (c.text m)).length ≤ n then
      (m :: (c.cut ms (n - (c.frame (c.text m)).length)).1,
        (c.cut ms (n - (c.frame (c.text m)).length)).2)
    else if (c.text m).length ≤ n - c.opening.length then ([m], [])
    else ([], (c.text m).take (n - c.opening.length))

theorem wire_cons (c : MessageConfig) (m : Message) (ms : List Message) :
    c.wire (m :: ms) = c.frame (c.text m) ++ c.wire ms :=
  List.flatMap_cons

/-- A part is the start of a payload that is not there in whole. -/
theorem part_of_cut (h : (c.cut ms n).2 ≠ []) :
    ∃ m rest, c.text m = (c.cut ms n).2 ++ rest ∧ rest ≠ [] := by
  induction ms generalizing n with
  | nil => exact absurd rfl h
  | cons m ms ih =>
    rw [cut] at h ⊢
    by_cases hwhole : (c.frame (c.text m)).length ≤ n
    · rw [if_pos hwhole] at h ⊢
      exact ih h
    · rw [if_neg hwhole] at h ⊢
      by_cases hpayload : (c.text m).length ≤ n - c.opening.length
      · rw [if_pos hpayload] at h
        exact absurd rfl h
      · rw [if_neg hpayload]
        refine ⟨m, (c.text m).drop (n - c.opening.length), (List.take_append_drop _ _).symm, ?_⟩
        rw [← List.length_pos_iff, List.length_drop]
        omega

/-- All of the wire holds all of the messages. -/
theorem cut_wire (c : MessageConfig) (ms : List Message) :
    c.cut ms (c.wire ms).length = (ms, []) := by
  induction ms with
  | nil => rfl
  | cons m ms ih =>
    rw [wire_cons, List.length_append, cut, if_pos (Nat.le_add_right _ _),
      Nat.add_sub_cancel_left, ih]

theorem accepts_iff : c.accepts m = true ↔
    c.version.canRepresent m = true ∧ c.segmentLength (c.text m).length ≤ c.limit := by
  rw [accepts, Bool.and_eq_true, decide_eq_true_iff]

/-! ## Frames -/

section Frames

/-- The text of a message is a payload that cannot be mistaken for anything else. -/
theorem isPlain_text (h : c.format.framing? = some framing) (m : Message) :
    Framing.IsPlain (c.text m) := by
  refine ⟨le_of_mem_text h, ?_⟩
  obtain ⟨inner, hprint⟩ := Json.print_object_eq [(m.tag.name, .object m.entries)]
  exact ⟨0x7b, inner ++ [0x7d], (text_of_framing h).trans hprint, by decide⟩

theorem frame_of_framing (h : c.format.framing? = some framing) (payload : Bytes) :
    c.frame payload = framing.frame payload := by
  simp only [frame, h]

theorem opening_of_framing (h : c.format.framing? = some framing) :
    c.opening = framing.opening := by
  simp only [opening, h]

theorem starts_wire (h : c.format.framing? = some framing) (ms : List Message) (n : Nat) :
    framing.Starts ((c.wire ms).take n) := by
  cases ms with
  | nil => exact .inl List.take_nil
  | cons m ms =>
    rw [wire_cons, frame_of_framing h, Framing.frame, List.append_assoc, List.append_assoc]
    cases framing with
    | recordSeparated =>
      cases n with
      | zero => exact .inl rfl
      | succ n => exact .inr ⟨_, rfl⟩
    | lineDelimited => exact .inr ⟨_, rfl⟩

/-- No segment of accepted messages is over the limit. -/
theorem fits_wire (h : c.format.framing? = some framing) (hms : ∀ m ∈ ms, c.accepts m = true) :
    Fits framing.delimiter c.limit (c.wire ms) := by
  have hwire : c.wire ms = (ms.map c.text).flatMap framing.frame := by
    rw [wire, List.flatMap_map]
    simp only [frame_of_framing h]
  rw [hwire]
  refine Framing.fits_frames (fun payload hpayload => ?_) fun payload hpayload => ?_
  · obtain ⟨m, -, rfl⟩ := List.mem_map.1 hpayload
    exact ((isPlain_text h m).cuts framing).free
  · obtain ⟨m, hm, rfl⟩ := List.mem_map.1 hpayload
    have hlimit := (accepts_iff.1 (hms m hm)).2
    simpa only [segmentLength, h] using hlimit

/-- **A text is read back** from its segment, and on its own as well. -/
theorem ofSegment_text (h : c.format.framing? = some framing)
    (hm : c.version.canRepresent m = true) :
    Message.ofSegment c.version (c.text m) = .ok m ∧
      Message.ofSegment c.version (framing.segment (c.text m)) = .ok m := by
  have hparse (blanks : Bytes) (hblanks : ∀ b ∈ blanks, Json.isSpace b = true) :
      Message.ofSegment c.version (c.text m ++ blanks) = .ok m := by
    have hmessage := Message.ofStructured_toStructured hm
    rw [text_of_framing h, Message.ofSegment, m.parse_print hblanks]
    simp only [hmessage]
    rfl
  have halone := hparse [] (by simp)
  rw [List.append_nil] at halone
  refine ⟨halone, ?_⟩
  cases framing with
  | recordSeparated => exact hparse [lineFeed] (List.forall_mem_singleton.2 (by decide))
  | lineDelimited => exact halone

/-- The segments of the first octets of a stream: those of whole payloads, and the part of the next
one that is there. -/
theorem solid_cut (h : c.format.framing? = some framing) (hms : ∀ m ∈ ms, c.accepts m = true) :
    ∃ segments, solid (((c.wire ms).take n).splitOn framing.delimiter) =
        segments ++ (if (c.cut ms n).2 = [] then [] else [(c.cut ms n).2]) ∧
      List.Forall₂ (fun segment m => Message.ofSegment c.version segment = .ok m) segments
        (c.cut ms n).1 := by
  induction ms generalizing n with
  | nil =>
    refine ⟨[], ?_, .nil⟩
    rw [wire, List.flatMap_nil, List.take_nil, List.splitOn_nil]
    rfl
  | cons m ms ih =>
    have hm := (accepts_iff.1 (hms m List.mem_cons_self)).1
    obtain ⟨halone, hsegment⟩ := ofSegment_text h hm
    have hplain := isPlain_text h m
    have hlength := framing.length_frame (c.text m)
    rw [cut, wire_cons, frame_of_framing h, opening_of_framing h]
    by_cases hwhole : (framing.frame (c.text m)).length ≤ n
    · obtain ⟨segments, hsolid, hread⟩ :=
        ih (n := n - (framing.frame (c.text m)).length)
          fun x hx => hms x (List.mem_cons_of_mem m hx)
      rw [if_pos hwhole, List.take_append, List.take_of_length_le hwhole]
      refine ⟨framing.segment (c.text m) :: segments, ?_, .cons hsegment hread⟩
      rw [Framing.solid_splitOn_frame (hplain.cuts framing) (starts_wire h ms _), hsolid]
      rfl
    · have hinside : n ≤ framing.opening.length + (c.text m).length := by
        cases framing <;> simp only [Framing.frameLength, Framing.opening, List.length_singleton,
          List.length_nil] at hlength ⊢ <;> omega
      rw [if_neg hwhole, List.take_append_of_le_length (by omega),
        Framing.solid_splitOn_start hplain hinside]
      by_cases hpayload : (c.text m).length ≤ n - framing.opening.length
      · rw [if_pos hpayload, List.take_of_length_le hpayload, if_neg hplain.ne_nil]
        exact ⟨[c.text m], rfl, .cons halone .nil⟩
      · rw [if_neg hpayload]
        exact ⟨[], rfl, .nil⟩

end Frames

/-- Why the part of a payload is no message: it is no JSON text, or its item is cut short. -/
def IsTruncation (c : MessageConfig) (part : Bytes) (reason : DecodeReason) : Prop :=
  match c.format with
  | .jsonSequence | .jsonLines => ∃ e, Json.parse part = .error e ∧ reason = .json e
  | .cborSequence => reason = .cbor .truncated

/-- The part of a text is no message. -/
theorem ofSegment_part {part rest : Bytes} (h : c.format.framing? = some framing)
    (hpart : c.text m = part ++ rest) (hsome : part ≠ []) (hrest : rest ≠ []) :
    ∃ reason, c.IsTruncation part reason ∧
      Message.ofSegment c.version part = .error ⟨part, reason⟩ := by
  rw [text_of_framing h] at hpart
  obtain ⟨e, he⟩ :=
    Json.parse_of_append_eq_print m.plain_document (by decide) hpart.symm hsome hrest
  refine ⟨.json e, ?_, by rw [Message.ofSegment, he]⟩
  rw [IsTruncation]
  cases hformat : c.format with
  | jsonSequence | jsonLines => exact ⟨e, he, rfl⟩
  | cborSequence => simp [hformat, StreamFormat.framing?] at h

/-! ## Items -/

section Items

theorem frame_of_items (h : c.format.framing? = none) (payload : Bytes) :
    c.frame payload = payload := by
  simp only [frame, h]

theorem opening_of_items (h : c.format.framing? = none) : c.opening = [] := by
  simp only [opening, h]

/-- **An item is read back**, request by request. -/
theorem reads_text (h : c.format.framing? = none) (hsmall : c.limit < 2 ^ 64)
    (hm : c.accepts m = true) :
    Cbor.Reads (.more .start) (c.text m) (.done m.toStructured) ∧
      (c.text m).length ≤ c.limit ∧ c.text m ≠ [] := by
  have hlimit := (accepts_iff.1 hm).2
  simp only [segmentLength, h] at hlimit
  rw [text_of_items h] at hlimit ⊢
  have hreads := m.reads_encode (by omega)
  exact ⟨hreads, hlimit, List.length_pos_iff.1 (Cbor.length_encode_pos m.document)⟩

end Items

end MessageConfig

namespace MessageReader

variable {c : MessageConfig} {ms : List Message} {n : Nat} {s : Source}

/-- A reader of frames up to any octet. -/
theorem yields_cut_frames {framing : Framing} (h : c.format.framing? = some framing)
    (hms : ∀ m ∈ ms, c.accepts m = true) (hs : s.Delivers ((c.wire ms).take n)) :
    ((c.cut ms n).2 = [] → (ofConfig c s).Yields (c.cut ms n).1 none) ∧
      ((c.cut ms n).2 ≠ [] → ∃ reason, c.IsTruncation (c.cut ms n).2 reason ∧
        (ofConfig c s).Yields (c.cut ms n).1 (some (.decode ⟨(c.cut ms n).2, reason⟩))) := by
  have hfits : Fits framing.delimiter c.limit ((c.wire ms).take n) := by
    have hall := MessageConfig.fits_wire h hms
    rw [← List.take_append_drop n (c.wire ms)] at hall
    exact hall.of_append
  obtain ⟨segments, hsolid, hread⟩ := MessageConfig.solid_cut (n := n) h hms
  constructor
  · intro hpart
    rw [if_pos hpart] at hsolid
    refine yields_of_decodes h hs hfits ?_
    rw [hsolid]
    exact Decodes.of_segments none hread rfl
  · intro hpart
    rw [if_neg hpart] at hsolid
    obtain ⟨m, rest, htext, hrest⟩ := MessageConfig.part_of_cut hpart
    obtain ⟨reason, htruncation, herror⟩ := MessageConfig.ofSegment_part h htext hpart hrest
    refine ⟨reason, htruncation, yields_of_decodes h hs hfits ?_⟩
    rw [hsolid]
    exact Decodes.of_segments (some _) hread ⟨_, [], rfl, herror⟩

/-- A reader of items up to any octet. -/
theorem yields_cut_items {r : MessageReader} {b : BufferedSource}
    (h : r.config.format.framing? = none) (hsmall : r.config.limit < 2 ^ 64)
    (hms : ∀ m ∈ ms, r.config.accepts m = true) (hdone : r.done = false)
    (hsource : r.source = .items b) (hb : b.Delivers ((r.config.wire ms).take n)) :
    r.Yields (r.config.cut ms n).1
      (if (r.config.cut ms n).2 = [] then none
        else some (.decode ⟨(r.config.cut ms n).2, .cbor .truncated⟩)) := by
  -- along the messages, each of which is read before the next one is looked at
  induction ms generalizing r b n with
  | nil =>
    rw [MessageConfig.wire, List.flatMap_nil, List.take_nil] at hb
    exact yields_of_no_item hdone hsource hb
  | cons m ms ih =>
    have hm := hms m List.mem_cons_self
    obtain ⟨hreads, hlimit, hsome⟩ := MessageConfig.reads_text h hsmall hm
    rw [MessageConfig.wire_cons, MessageConfig.frame_of_items h] at hb
    rw [MessageConfig.cut, MessageConfig.frame_of_items h, MessageConfig.opening_of_items h,
      List.length_nil, Nat.sub_zero]
    by_cases hwhole : (r.config.text m).length ≤ n
    · rw [List.take_append, List.take_of_length_le hwhole] at hb
      have hmessage := Message.ofStructured_toStructured (MessageConfig.accepts_iff.1 hm).1
      obtain ⟨later, hnext, hlater⟩ :=
        next_of_whole_item hdone hsource hreads hsome hlimit hb hmessage
      rw [if_pos hwhole]
      refine Yields.cons ?_ hnext
      exact ih (r := { r with source := .items later, count := r.count + 1 }) h hsmall
        (fun x hx => hms x (List.mem_cons_of_mem m hx)) hdone rfl hlater
    · rw [if_neg hwhole, if_neg hwhole]
      rw [List.take_append_of_le_length (by omega)] at hb
      by_cases hnone : (r.config.text m).take n = []
      · rw [if_pos hnone]
        rw [hnone] at hb
        exact yields_of_no_item hdone hsource hb
      · rw [if_neg hnone]
        have hrest : (r.config.text m).drop n ≠ [] := by
          rw [← List.length_pos_iff, List.length_drop]
          omega
        rw [← List.take_append_drop n (r.config.text m)] at hreads
        refine yields_of_truncated_item hdone hsource hreads hnone hrest ?_ hb
        rw [List.length_take]
        omega

/-- **A reader of a stream up to any octet** yields the messages whose payload is there in whole,
and the part of the next one that is there, if there is any, as an error. -/
theorem yields_cut (hsmall : c.limit < 2 ^ 64) (hms : ∀ m ∈ ms, c.accepts m = true)
    (hs : s.Delivers ((c.wire ms).take n)) :
    ((c.cut ms n).2 = [] → (ofConfig c s).Yields (c.cut ms n).1 none) ∧
      ((c.cut ms n).2 ≠ [] → ∃ reason, c.IsTruncation (c.cut ms n).2 reason ∧
        (ofConfig c s).Yields (c.cut ms n).1 (some (.decode ⟨(c.cut ms n).2, reason⟩))) := by
  cases h : c.format.framing? with
  | some framing => exact yields_cut_frames h hms hs
  | none =>
    have hsource := source_of_items h s
    have hitems := yields_cut_items (r := ofConfig c s) h hsmall hms rfl hsource
      (BufferedSource.delivers_of_source (Nat.le_max_right c.chunk 1) hs)
    have hformat : c.format = .cborSequence := by
      cases hformat : c.format with
      | jsonSequence | jsonLines => simp [hformat, StreamFormat.framing?] at h
      | cborSequence => rfl
    constructor
    · intro hpart
      rw [show (ofConfig c s).config = c from rfl, if_pos hpart] at hitems
      exact hitems
    · intro hpart
      rw [show (ofConfig c s).config = c from rfl, if_neg hpart] at hitems
      refine ⟨.cbor .truncated, ?_, hitems⟩
      simp only [MessageConfig.IsTruncation, hformat]

/-- **A reader of a whole stream** yields its messages. -/
theorem yields_wire (hsmall : c.limit < 2 ^ 64) (hms : ∀ m ∈ ms, c.accepts m = true)
    (hs : s.Delivers (c.wire ms)) : (ofConfig c s).Yields ms none := by
  have hwhole : s.Delivers ((c.wire ms).take (c.wire ms).length) := by rwa [List.take_length]
  have hclean := (yields_cut hsmall hms hwhole).1
  rw [MessageConfig.cut_wire] at hclean
  exact hclean rfl

end MessageReader

end WarcStream
