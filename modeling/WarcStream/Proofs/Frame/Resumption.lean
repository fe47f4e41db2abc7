import WarcStream.Proofs.Frame.Reassembly
import WarcStream.Proofs.Frame.Sending
/-!
# Reading on behind broken writes

Every record-separated frame opens with the octet that the stream is cut at, and
no frame holds it again. So whatever part of a frame a failed write has left on
the wire, the next call that puts anything there cuts it off: the runs of the
stream are what the calls have put there, each without its record separator
(`splitOn_put`), and a reader finds each complete frame whole, and what there is
of each broken one (`answers_calls`).
-/

namespace WarcStream

open Transport Bytes

namespace Bytes

variable {d : UInt8} {run : Bytes} {parts : List Bytes}

/-- An octet and what follows it up to the next one like it. -/
def Opens (d : UInt8) (part : Bytes) : Prop := ∃ body, part = d :: body ∧ d ∉ body

/-- The runs of parts that open with the delimiter. A part that is empty leaves none. -/
theorem splitOn_flatten (hrun : d ∉ run) (hparts : ∀ part ∈ parts, part ≠ [] → Opens d part) :
    (run ++ parts.flatten).splitOn d =
      run :: (parts.filter fun part => !part.isEmpty).map (List.drop 1) := by
  -- along the parts: one that is not empty closes the run before it and opens its own
  induction parts generalizing run with
  | nil =>
    rw [List.flatten_nil, List.append_nil, List.splitOn_eq_singleton hrun]
    rfl
  | cons part rest ih =>
    have hrest : ∀ part ∈ rest, part ≠ [] → Opens d part :=
      fun part hpart => hparts part (List.mem_cons_of_mem _ hpart)
    by_cases hnil : part = []
    · subst hnil
      exact ih hrun hrest
    · obtain ⟨body, rfl, hbody⟩ := hparts part List.mem_cons_self hnil
      have hcut : run ++ ((d :: body) :: rest).flatten = run ++ d :: (body ++ rest.flatten) := by
        rw [List.flatten_cons, List.cons_append]
      rw [hcut, splitOn_append_cons hrun, ih hbody hrest]
      rfl

end Bytes

/-- A reader of octets that fit hands out their runs that are not blank, and then the end. -/
theorem FrameReader.answers_of_readable {c : FrameConfig} {s : Source} {octets : Bytes}
    (hs : s.Readable octets) (hfits : Fits c.framing.delimiter c.limit octets) (k : Nat) :
    (ofConfig c s).answers ((solid (octets.splitOn c.framing.delimiter)).length + k) =
      (solid (octets.splitOn c.framing.delimiter)).map (fun run => .ok (some run)) ++
        List.replicate k (.ok none) := by
  obtain ⟨hoctets, hquiet⟩ := hs.live_eq
  have hreports : (ofConfig c s).reports = reportsOf (octets.splitOn c.framing.delimiter) := by
    have hquietly := transcript_of_quiet hquiet c.framing.delimiter []
    rw [List.nil_append, hoctets] at hquietly
    exact hquietly
  rw [← hoctets] at hfits
  have hanswers := (sound_ofConfig hfits).answers_eq k
  rw [hreports, reportsOf, List.length_map, List.map_map] at hanswers
  exact hanswers

namespace FrameCall

variable {c : FrameConfig} {call : FrameCall}

/-- What a call puts on a record-separated wire, if anything, is the separator and the start of the
segment of its payload. -/
theorem Accounted.put_cases (h : call.Accounted c) (hframing : c.framing = .recordSeparated) :
    call.put = [] ∨
      call.put = recordSeparator :: call.body ∧ recordSeparator ∉ call.body ∧
        call.body.length ≤ c.limit := by
  by_cases hnil : call.put = []
  · exact .inl hnil
  · right
    have hframed := h.isPrefix
    have hwithin := h.within hnil
    have hclean := h.clean hnil
    rw [hframing] at hframed hwithin hclean
    have hsegment : recordSeparator ∉ Framing.recordSeparated.segment call.payload :=
      Framing.delimiter_notMem_segment hclean
    obtain ⟨b, body, hput⟩ := List.exists_cons_of_ne_nil hnil
    have hbody : call.body = body := by rw [FrameCall.body, hput, List.drop_one, List.tail_cons]
    have hframe : Framing.recordSeparated.frame call.payload =
        recordSeparator :: Framing.recordSeparated.segment call.payload := rfl
    rw [hput, hframe, List.cons_prefix_cons] at hframed
    obtain ⟨rfl, hstart⟩ := hframed
    rw [hbody]
    refine ⟨hput, fun hmem => hsegment (hstart.mem hmem), ?_⟩
    have hlength := hstart.length_le
    rw [Framing.length_segment] at hlength
    exact hlength.trans hwithin

/-- **What a call leaves for a reader**: the segment of its payload if it succeeded, and the start
of it if it failed. -/
theorem Accounted.body_eq (h : call.Accounted c) (hframing : c.framing = .recordSeparated) :
    call.body <+: call.payload ++ [lineFeed] ∧
      (call.answer = .ok () → call.body = call.payload ++ [lineFeed]) := by
  have hstart : call.put.drop 1 <+: (c.framing.frame call.payload).drop 1 := by
    obtain ⟨rest, hrest⟩ := h.isPrefix
    rw [← hrest]
    exact List.drop_append ▸ List.prefix_append _ _
  have hwhole (hok : call.answer = .ok ()) := congrArg (List.drop 1) (h.of_ok hok)
  rw [hframing] at hstart hwhole
  exact ⟨hstart, hwhole⟩

end FrameCall

namespace FrameWriter

variable {c : FrameConfig} {calls : List FrameCall}

/-- The octets that calls have put on the wire. -/
def wire (calls : List FrameCall) : Bytes := (calls.map FrameCall.put).flatten

/-- **The runs behind any calls** are what each that put anything has put there. -/
theorem splitOn_put (hframing : c.framing = .recordSeparated)
    (hcalls : ∀ call ∈ calls, call.Accounted c) :
    (wire calls).splitOn recordSeparator =
      [] :: (calls.filter fun call => !call.put.isEmpty).map FrameCall.body := by
  have hopens : ∀ part ∈ calls.map FrameCall.put, part ≠ [] → Opens recordSeparator part := by
    intro part hpart hnil
    obtain ⟨call, hcall, rfl⟩ := List.mem_map.1 hpart
    rcases (hcalls call hcall).put_cases hframing with hput | ⟨hput, hfree, -⟩
    · exact absurd hput hnil
    · exact ⟨_, hput, hfree⟩
  have hnone : recordSeparator ∉ ([] : Bytes) := List.not_mem_nil
  have hsplit := splitOn_flatten hnone hopens
  rw [List.nil_append, List.filter_map, List.map_map] at hsplit
  exact hsplit

/-- What is to be found of calls: the bodies that are not blank. -/
def found (calls : List FrameCall) : List Bytes := solid (calls.map FrameCall.body)

/-- A call that put nothing there leaves nothing to be found. -/
theorem solid_splitOn_wire (hframing : c.framing = .recordSeparated)
    (hcalls : ∀ call ∈ calls, call.Accounted c) :
    solid ((wire calls).splitOn recordSeparator) = found calls := by
  have hfirst (runs : List Bytes) : solid ([] :: runs) = solid runs := rfl
  rw [splitOn_put hframing hcalls, hfirst, found, solid, solid, List.filter_map, List.filter_map,
    List.filter_filter]
  refine congrArg _ (List.filter_congr fun call _ => ?_)
  by_cases hnil : call.put = []
  · have hbody : call.body = [] := by rw [FrameCall.body, hnil, List.drop_nil]
    simp [hnil, hbody, allBlank]
  · simp [hnil]

theorem fits_wire (hframing : c.framing = .recordSeparated)
    (hcalls : ∀ call ∈ calls, call.Accounted c) :
    Fits recordSeparator c.limit (wire calls) := by
  intro run hrun
  rw [splitOn_put hframing hcalls] at hrun
  rcases List.mem_cons.1 hrun with rfl | hrun
  · exact Nat.zero_le _
  · obtain ⟨call, hcall, rfl⟩ := List.mem_map.1 hrun
    obtain ⟨hmem, hsome⟩ := List.mem_filter.1 hcall
    rcases (hcalls call hmem).put_cases hframing with hput | ⟨-, -, hlength⟩
    · simp [hput] at hsome
    · exact hlength

/-- **A record-separated stream goes on behind broken writes.** Payloads are written one after the
other, whatever comes of each, to a sink that may take its octets in parts and fail anywhere. A
reader of the same limit never fails on what the sink took: it hands out what each call has left
there, in the order of the calls, and the end. A call that succeeded has left its payload with the
line feed, one that failed the start of it, and what is blank is not handed out. -/
theorem answers_calls (w : FrameWriter) (payloads : List Bytes)
    (hframing : w.config.framing = .recordSeparated) :
    (w.calls payloads).map FrameCall.payload = payloads ∧
    (w.writeEach payloads).sink.taken = w.sink.taken ++ wire (w.calls payloads) ∧
    (∀ call ∈ w.calls payloads,
      call.body <+: call.payload ++ [lineFeed] ∧
      (call.answer = .ok () → call.body = call.payload ++ [lineFeed] ∧
        allBlank call.body = allBlank call.payload)) ∧
    ∀ (chunk : Nat) (s : Source), s.Delivers (wire (w.calls payloads)) →
      ∀ k, (FrameReader.ofConfig { w.config with chunk } s).answers
          ((found (w.calls payloads)).length + k) =
        (found (w.calls payloads)).map (fun segment => .ok (some segment)) ++
          List.replicate k (.ok none) := by
  obtain ⟨hpayloads, hcalls, htaken⟩ := w.taken_calls payloads
  refine ⟨hpayloads, htaken, fun call hcall => ?_, fun chunk s hs k => ?_⟩
  · obtain ⟨hstart, hwhole⟩ := (hcalls call hcall).body_eq hframing
    refine ⟨hstart, fun hok => ⟨hwhole hok, ?_⟩⟩
    have hline : isBlank lineFeed = true := by decide
    rw [hwhole hok]
    simp [allBlank, hline]
  · have hfits := fits_wire hframing hcalls
    have hsolid := solid_splitOn_wire hframing hcalls
    have hdelimiter : recordSeparator = w.config.framing.delimiter := by
      rw [hframing]
      rfl
    rw [hdelimiter] at hfits hsolid
    rw [← hsolid]
    exact FrameReader.answers_of_readable (c := { w.config with chunk }) (.inl hs) hfits k

/-- A writer whose sink takes two octets, breaks, and takes everything from then on, but fails to
flush once. -/
def brokenWriter : FrameWriter where
  config := { limit := 3 }
  sink :=
    { acceptances := [.atMost 2, .fault (.plain .brokenPipe)]
      flushFaults := [none, some (.plain .timedOut)] }

/-- Of four payloads the first is cut short, the second comes whole, the third is too large, and
behind the fourth the flush fails. -/
theorem answers_calls_brokenWriter :
    brokenWriter.config.framing = .recordSeparated ∧
    ∀ s : Source, s.Delivers [0x1e, 0x61, 0x1e, 0x63, 0x0a, 0x1e, 0x64, 0x64, 0x0a] →
      (FrameReader.ofConfig { brokenWriter.config with chunk := 1 } s).answers 5 =
        [.ok (some [0x61]), .ok (some [0x63, 0x0a]), .ok (some [0x64, 0x64, 0x0a]), .ok none,
          .ok none] := by
  have hframing : brokenWriter.config.framing = .recordSeparated := rfl
  refine ⟨hframing, fun s hs => ?_⟩
  obtain ⟨-, -, -, hread⟩ :=
    answers_calls brokenWriter [[0x61, 0x62], [0x63], [0x65, 0x65, 0x65], [0x64, 0x64]] hframing
  have hsegments :
      found (brokenWriter.calls [[0x61, 0x62], [0x63], [0x65, 0x65, 0x65], [0x64, 0x64]]) =
        [[0x61], [0x63, 0x0a], [0x64, 0x64, 0x0a]] := by
    decide +kernel
  have hwire :
      wire (brokenWriter.calls [[0x61, 0x62], [0x63], [0x65, 0x65, 0x65], [0x64, 0x64]]) =
        [0x1e, 0x61, 0x1e, 0x63, 0x0a, 0x1e, 0x64, 0x64, 0x0a] := by
    decide +kernel
  rw [hsegments, hwire] at hread
  exact hread 1 s hs 2

end FrameWriter

end WarcStream
