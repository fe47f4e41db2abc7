import WarcStream.Proofs.Frame.Wire
import WarcStream.Proofs.Json.Blanks
import WarcStream.Proofs.Message.Fusing
import WarcStream.Proofs.Message.Grammar
import WarcStream.Proofs.Message.Stopping
import Mathlib.Tactic.Choose
/-!
# Payloads in one layout or another

A producer may put a record separator in front of each payload and a line feed
behind it, or only a line feed, or a carriage return and a line feed. The
readers hand different octets to the decoder: the line feed is kept in a
record-separated segment, the carriage return in a line. They are blanks of the
JSON text, so it makes no difference which of the layouts is taken, whatever the
payloads are (`PayloadLayout.layouts_agree`).
-/

namespace WarcStream

open Transport Bytes

/-- What is put around each payload of a stream. -/
inductive PayloadLayout where
  /-- A record separator in front and a line feed behind. -/
  | separated
  /-- A line feed behind. -/
  | lines
  /-- A carriage return and a line feed behind. -/
  | returns

/-- A payload that can stand in every layout. -/
structure Delimitable (payload : Bytes) : Prop where
  solid : allBlank payload = false
  separator_notMem : recordSeparator ∉ payload
  lineFeed_notMem : lineFeed ∉ payload

instance (payload : Bytes) : Decidable (Delimitable payload) :=
  decidable_of_iff (allBlank payload = false ∧ recordSeparator ∉ payload ∧ lineFeed ∉ payload)
    ⟨fun ⟨hsolid, hseparator, hline⟩ => ⟨hsolid, hseparator, hline⟩,
      fun ⟨hsolid, hseparator, hline⟩ => ⟨hsolid, hseparator, hline⟩⟩

namespace PayloadLayout

variable {version : ProtocolVersion} {payload : Bytes} {payloads : List Bytes}
variable {ms : List Message} {stop : Option MessageError} {limit : Nat}

/-- The format that a reader of the layout is set to. -/
def format : PayloadLayout → StreamFormat
  | .separated => .jsonSequence
  | .lines | .returns => .jsonLines

/-- A payload with what is put around it. -/
def record : PayloadLayout → Bytes → Bytes
  | .separated, payload => recordSeparator :: (payload ++ [lineFeed])
  | .lines, payload => payload ++ [lineFeed]
  | .returns, payload => payload ++ [carriageReturn, lineFeed]

/-- The octets of a stream of payloads. -/
def wire (layout : PayloadLayout) (payloads : List Bytes) : Bytes := payloads.flatMap layout.record

/-- What a reader hands to the decoder for a payload: the payload, and what is kept of the octets
behind it. -/
def segment : PayloadLayout → Bytes → Bytes
  | .separated, payload => payload ++ [lineFeed]
  | .lines, payload => payload
  | .returns, payload => payload ++ [carriageReturn]

/-- Why a payload is no message, layout by layout: for the same reason in all of them, or because it
is no JSON text in any, and then only the account of where the text goes wrong may differ. -/
def SameReason (reason : PayloadLayout → DecodeReason) : Prop :=
  (∃ r, ∀ layout, reason layout = r) ∨ ∀ layout, ∃ e, reason layout = .json e

/-- Whoever reads the payloads in the layout, with a limit that no segment exceeds, and however the
octets arrive, gets these messages and stops with this error. -/
def Yields (layout : PayloadLayout) (version : ProtocolVersion) (payloads : List Bytes)
    (ms : List Message) (stop : Option MessageError) : Prop :=
  ∀ (c : MessageConfig) (s : Source), c.format = layout.format → c.version = version →
    (∀ payload ∈ payloads, (layout.segment payload).length ≤ c.limit) →
    s.Delivers (layout.wire payloads) → (MessageReader.ofConfig c s).Yields ms stop

/-! ## Segments -/

/-- The frames of the layout. -/
def framing : PayloadLayout → Framing
  | .separated => .recordSeparated
  | .lines | .returns => .lineDelimited

/-- What stands in the frame of a payload. -/
def body : PayloadLayout → Bytes → Bytes
  | .separated, payload | .lines, payload => payload
  | .returns, payload => payload ++ [carriageReturn]

theorem framing_format (layout : PayloadLayout) : layout.format.framing? = some layout.framing := by
  cases layout with
  | separated | lines | returns => rfl

theorem frame_body (layout : PayloadLayout) (payload : Bytes) :
    layout.framing.frame (layout.body payload) = layout.record payload := by
  cases layout with
  | separated | lines => rfl
  | returns => simp [framing, body, record, Framing.frame, Framing.opening]

theorem segment_body (layout : PayloadLayout) (payload : Bytes) :
    layout.framing.segment (layout.body payload) = layout.segment payload := by
  cases layout with
  | separated | lines | returns => rfl

/-- A payload that can stand in every layout is cut out of each of them. -/
theorem cuts_body (layout : PayloadLayout) (h : Delimitable payload) :
    layout.framing.Cuts (layout.body payload) := by
  obtain ⟨hsolid, hseparator, hline⟩ := h
  constructor
  · rw [segment_body]
    cases layout with
    | separated =>
      refine List.not_mem_append hseparator ?_
      decide
    | lines => exact hline
    | returns =>
      refine List.not_mem_append hline ?_
      decide
  · rw [segment_body]
    have hmore (kept : Bytes) : allBlank (payload ++ kept) = false := by
      unfold allBlank at hsolid ⊢
      rw [List.all_append, hsolid, Bool.false_and]
    cases layout with
    | separated | returns => exact hmore _
    | lines => exact hsolid

theorem wire_eq (layout : PayloadLayout) (payloads : List Bytes) :
    layout.wire payloads = (payloads.map layout.body).flatMap layout.framing.frame := by
  rw [wire, List.flatMap_map]
  simp only [frame_body]

/-- **The segments of a stream** are those of its payloads, and a limit that none of them exceeds
holds of the whole stream. -/
theorem segments_wire (layout : PayloadLayout) (h : ∀ payload ∈ payloads, Delimitable payload)
    (hlimit : ∀ payload ∈ payloads, (layout.segment payload).length ≤ limit) :
    solid ((layout.wire payloads).splitOn layout.framing.delimiter) =
        payloads.map layout.segment ∧
      Fits layout.framing.delimiter limit (layout.wire payloads) := by
  have hcuts : ∀ body ∈ payloads.map layout.body, layout.framing.Cuts body := by
    rw [List.forall_mem_map]
    exact fun payload hpayload => layout.cuts_body (h payload hpayload)
  have hsmall : ∀ body ∈ payloads.map layout.body,
      layout.framing.segmentLength body.length ≤ limit := by
    rw [List.forall_mem_map]
    intro payload hpayload
    rw [← Framing.length_segment, segment_body]
    exact hlimit payload hpayload
  rw [wire_eq]
  refine ⟨?_, Framing.fits_frames (fun body hbody => (hcuts body hbody).free) hsmall⟩
  rw [Framing.solid_splitOn_frames hcuts, List.map_map]
  exact List.map_congr_left fun payload _ => layout.segment_body payload

/-- What the segments come to, every reader yields. -/
theorem yields_of_decodes (layout : PayloadLayout) (h : ∀ payload ∈ payloads, Delimitable payload)
    (hdecodes : Decodes version ((payloads.map layout.segment).map .ok) ms stop) :
    layout.Yields version payloads ms stop := by
  intro c s hformat hversion hlimit hs
  have hframing : c.format.framing? = some layout.framing := by rw [hformat, framing_format]
  obtain ⟨hsegments, hfits⟩ := layout.segments_wire h hlimit
  rw [← hversion, ← hsegments] at hdecodes
  exact MessageReader.yields_of_decodes hframing hs hfits hdecodes

/-! ## Payloads -/

/-- What is kept of the octets behind a payload makes no difference to the value of its text. -/
theorem parse_segment_iff (layout : PayloadLayout) (payload : Bytes) (v : Value) :
    Json.parse (layout.segment payload) = .ok v ↔ Json.parse payload = .ok v := by
  have hkept {kept : Bytes} (hblank : Json.Blank kept) :
      Json.parse (payload ++ kept) = .ok v ↔ Json.parse payload = .ok v :=
    Json.parse_blanks_iff Json.blank_nil hblank
  cases layout with
  | separated => exact hkept (List.forall_mem_singleton.2 rfl)
  | lines => exact Iff.rfl
  | returns => exact hkept (List.forall_mem_singleton.2 rfl)

/-- **A payload is the same message in every layout**, or none in any, and for the same reason. -/
theorem segment_cases (version : ProtocolVersion) (payload : Bytes) :
    (∃ m, ∀ layout : PayloadLayout,
      Message.ofSegment version (layout.segment payload) = .ok m) ∨
    ∃ reason, SameReason reason ∧ ∀ layout : PayloadLayout,
      Message.ofSegment version (layout.segment payload) =
        .error ⟨layout.segment payload, reason layout⟩ := by
  cases hparse : Json.parse payload with
  | ok v =>
    have hvalue (layout : PayloadLayout) := (layout.parse_segment_iff payload v).2 hparse
    cases hmessage : Message.ofStructured version v with
    | ok m =>
      refine .inl ⟨m, fun layout => ?_⟩
      exact Message.ofSegment_eq_ok_iff.2 ⟨v, hvalue layout, hmessage⟩
    | error r =>
      refine .inr ⟨fun _ => r, .inl ⟨r, fun _ => rfl⟩, fun layout => ?_⟩
      rw [Message.ofSegment, hvalue layout]
      exact mapError_eq_error_iff.2 ⟨r, hmessage, rfl⟩
  | error e =>
    have hnone (layout : PayloadLayout) :
        ∃ e, Json.parse (layout.segment payload) = .error e := by
      cases hsegment : Json.parse (layout.segment payload) with
      | error e => exact ⟨e, rfl⟩
      | ok v =>
        rw [parse_segment_iff, hparse] at hsegment
        cases hsegment
    choose account haccount using hnone
    refine .inr ⟨fun layout => .json (account layout), .inr fun layout => ⟨account layout, rfl⟩, ?_⟩
    intro layout
    rw [Message.ofSegment, haccount layout]

/-- **The segments come to the same messages** in every layout, up to the first payload that is
none. -/
theorem exists_decodes_layouts (version : ProtocolVersion) (payloads : List Bytes) :
    ∃ ms : List Message,
      (ms.length = payloads.length ∧
        ∀ layout : PayloadLayout, Decodes version ((payloads.map layout.segment).map .ok) ms none) ∨
      ∃ payload reason, payloads[ms.length]? = some payload ∧ SameReason reason ∧
        ∀ layout : PayloadLayout, Decodes version ((payloads.map layout.segment).map .ok) ms
          (some (.decode ⟨layout.segment payload, reason layout⟩)) := by
  induction payloads with
  | nil => exact ⟨[], .inl ⟨rfl, fun _ => .ended⟩⟩
  | cons payload rest ih =>
    rcases segment_cases version payload with ⟨m, hm⟩ | ⟨reason, hsame, hreason⟩
    · obtain ⟨ms, ⟨hlength, hrest⟩ | ⟨wrong, reason, hwrong, hsame, hrest⟩⟩ := ih
      · refine ⟨m :: ms, .inl ⟨congrArg (· + 1) hlength, fun layout => ?_⟩⟩
        exact .message (hm layout) (hrest layout)
      · refine ⟨m :: ms, .inr ⟨wrong, reason, hwrong, hsame, fun layout => ?_⟩⟩
        exact .message (hm layout) (hrest layout)
    · exact ⟨[], .inr ⟨payload, reason, rfl, hsame, fun layout => .malformed (hreason layout)⟩⟩

/-- **The layouts are interchangeable.** Take any payloads that are not blank and hold neither a
record separator nor a line feed, JSON texts or not. Readers of the three layouts, with limits that
no segment exceeds, yield the same messages in the same order. Either these are the messages of all
of the payloads, or all readers fail at the same payload, each with its segment of it, and for the
same reason but for the account of where a JSON text goes wrong. -/
theorem layouts_agree (version : ProtocolVersion) (payloads : List Bytes)
    (h : ∀ payload ∈ payloads, Delimitable payload) :
    ∃ ms : List Message,
      (ms.length = payloads.length ∧
        ∀ layout : PayloadLayout, layout.Yields version payloads ms none) ∨
      ∃ payload reason, payloads[ms.length]? = some payload ∧ SameReason reason ∧
        ∀ layout : PayloadLayout, layout.Yields version payloads ms
          (some (.decode ⟨layout.segment payload, reason layout⟩)) := by
  obtain ⟨ms, ⟨hlength, hdecodes⟩ | ⟨payload, reason, hpayload, hsame, hdecodes⟩⟩ :=
    exists_decodes_layouts version payloads
  · exact ⟨ms, .inl ⟨hlength, fun layout => layout.yields_of_decodes h (hdecodes layout)⟩⟩
  · exact ⟨ms, .inr ⟨payload, reason, hpayload, hsame,
      fun layout => layout.yields_of_decodes h (hdecodes layout)⟩⟩

/-- The bare name of the end of the file with blanks around it, and a string that is cut open. -/
def cutString : List Bytes := [Text.bytes "\t\"EndOfFile\"\r ", Text.bytes "\"a"]

/-- In every layout, the end of the file is read, and the string is no JSON text, with what is kept
behind it or without. -/
theorem layouts_agree_cutString :
    (∀ payload ∈ cutString, Delimitable payload) ∧
      ∃ reason, SameReason reason ∧ ∀ layout : PayloadLayout,
        layout.Yields .v2 cutString [.endOfFile]
          (some (.decode ⟨layout.segment (Text.bytes "\"a"), reason layout⟩)) := by
  have hdelimitable : ∀ payload ∈ cutString, Delimitable payload := by decide
  refine ⟨hdelimitable, ?_⟩
  have hend : Message.ofSegment .v2 (Text.bytes "\t\"EndOfFile\"\r ") = .ok .endOfFile := by
    decide +kernel
  have hopen : Message.ofSegment .v2 (Text.bytes "\"a") =
      .error ⟨Text.bytes "\"a", .json (.after (Text.bytes "\"a") .endInString)⟩ := by
    decide +kernel
  have hdecodes : Decodes .v2 ((cutString.map lines.segment).map .ok) _ _ :=
    .message hend (.malformed hopen)
  -- one reader tells which of the outcomes it is, and that is the one of all of them
  have hone {ms : List Message} {stop : Option MessageError}
      (hyields : lines.Yields .v2 cutString ms stop) := by
    have hsource := Source.delivers_ofBytes (show lines.wire cutString ≠ [] by decide)
    have hread := hyields { format := .jsonLines } _ rfl rfl (by decide) hsource
    have hlines := lines.yields_of_decodes hdelimitable hdecodes
    exact hread.unique (hlines { format := .jsonLines } _ rfl rfl (by decide) hsource)
  obtain ⟨ms, ⟨-, hyields⟩ | ⟨payload, reason, hpayload, hsame, hyields⟩⟩ :=
    layouts_agree .v2 cutString hdelimitable
  · obtain ⟨-, hstop⟩ := hone (hyields .lines)
    cases hstop
  · obtain ⟨rfl, -⟩ := hone (hyields .lines)
    cases hpayload
    exact ⟨reason, hsame, hyields⟩

end PayloadLayout

end WarcStream
