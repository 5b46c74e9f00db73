import Agentd.Wire.RoundTrip

/-!
# A command of `agentdctl`

`agentdctl` connects to the control socket, sends one request as a line, and reads one line.  It
exits with success when the response says so.  Meanwhile other clients send requests of their own,
the client may stop in the middle of its line, the daemon may stop in the middle of its response,
and reads and writes may fail on both sides.

Whatever happens, the daemon carries out the request at most once, and it carries out nothing else
for this client.  The exit of `agentdctl` is reliable where there is a response: a success means
that the operation was performed, once, and an error that comes from the daemon means that it was
tried and refused.  Without a response the request may have been carried out or not.

A part of a line must not pass for the line.  This holds because the parser rejects a text that is
cut short (`Wire.RejectsCut`), and because a part of an encoding is not the encoding of another
text. -/

namespace Agentd

open JsonText Lines TransitionSystem

open Json (Plain)

/-- The parser rejects the text of an object that is cut short. -/
def Wire.RejectsCut (W : Wire) : Prop :=
  ∀ entries text, Plain 127 (.object entries) → text <+: Json.write (.object entries) →
    text ≠ Json.write (.object entries) → ∃ e, W.parse (String.ofList text) = .error e

/-- `rpc` behind the writing of the request: what has been received, and whether the daemon has
closed the connection; `none` while more has to come. -/
def Wire.rpc (W : Wire) (received : List UInt8) (closed : Bool) : Option (Except String Response) :=
  match chop newline received with
  | [] => if closed then some (.error "daemon closed the connection") else none
  | piece :: _ =>
    if piece.getLast? = some newline ∨ closed = true then some (W.readLine piece) else none

/-- How `agentdctl` exits, with what it prints. -/
inductive CtlExit where
  | success (out : String)
  | failure (message : String)
  deriving DecidableEq

/-- `rpc_ok` with the outcome of `rpc`. -/
def rpcOk : Except String Response → CtlExit
  | .ok r => if r.ok then .success "ok" else .failure (r.error.getD "unknown error")
  | .error e => .failure e

/-- The deed carries out a request. -/
def ConnectionDeed.isExecution : ConnectionDeed → Bool
  | .performed .. | .listed _ | .reported _ => true
  | .sent _ | .wrote _ | .failed => false

/-- What the daemon has carried out for the client of a connection. -/
def executions (log : List ConnectionDeed) : List ConnectionDeed :=
  log.filter ConnectionDeed.isExecution

variable {C : DispatcherConfig} {T : ControlConfig} {W : Wire} {r : Request}
variable {text chars : List Char}
variable {requests : List RequestStage} {conn : Connection} {log deeds : List ConnectionDeed}
variable {S S' S₀ : ControlPlane} {c : ℕ} {piece : List UInt8} {D D' : Daemon} {conn' : Connection}

/-! ## Lines that are cut short -/

/-- The line that a part of a line decodes to is the text of the line, or a part of it. -/
theorem decodeLine_of_prefix (hlast : text.getLast? ≠ some '\r') (hline : '\n' ∉ text)
    (hpre : piece <+: encode (text ++ ['\n'])) {line : String}
    (hdecode : decodeLine piece = some line) :
    line = String.ofList text ∨ ∃ chars, line = String.ofList chars ∧ chars <+: text ∧
      chars ≠ text := by
  obtain ⟨s, hs, rfl⟩ := Option.map_eq_some_iff.mp hdecode
  obtain ⟨hvalid, heq⟩ := Option.dite_none_right_eq_some.mp hs
  have hbytes : s.toByteArray = ⟨piece.toArray⟩ := by rw [← Option.some_inj.mp heq]; rfl
  obtain ⟨chars, rfl⟩ := s.exists_eq_ofList
  have hpiece : piece = encode chars := by
    rw [String.toByteArray_ofList] at hbytes
    have hdata := congrArg (fun b : ByteArray => b.data.toList) hbytes
    simpa [List.utf8Encode, encode] using hdata.symm
  rw [hpiece] at hpre
  rw [String.toList_ofList]
  rcases List.prefix_concat_iff.mp (prefix_of_encode hpre) with rfl | hpart
  · left
    rw [stripEnd, List.getLast?_concat, if_pos rfl, List.dropLast_concat, if_neg hlast]
  · have hnot : chars.getLast? ≠ some '\n' := fun h =>
      hline (hpart.subset (List.mem_of_getLast? h))
    rw [stripEnd, if_neg hnot]
    by_cases hwhole : chars = text
    · exact .inl (by rw [hwhole])
    · exact .inr ⟨chars, rfl, hpart, hwhole⟩

namespace Wire

/-- Of a part of an object's line, the parser gets the value or nothing. -/
theorem parse_of_prefix (hW : W.ReadsPlain) (hcut : W.RejectsCut)
    {entries : List (String × Json)} (hplain : Plain 127 (.object entries))
    (hpre : piece <+: encode (Json.write (.object entries) ++ ['\n'])) {line : String}
    (hdecode : decodeLine piece = some line) :
    W.parse line = .ok (.object entries) ∨ ∃ e, W.parse line = .error e := by
  rcases decodeLine_of_prefix object_line.1 (JsonText.newline_notMem hplain.jsonText) hpre
    hdecode with rfl | ⟨chars, rfl, hpart, hne⟩
  · exact .inl (hW _ hplain)
  · exact .inr (hcut entries chars hplain hpart hne)

/-- Of a part of a request's line, the daemon reads the request or nothing. -/
theorem reads_of_prefix (hW : W.ReadsPlain) (hcut : W.RejectsCut) (hr : r.serialize = some text)
    (hpre : piece <+: encode (text ++ ['\n'])) {request : Request}
    (hreads : (W.config T).Reads piece request) : request = r := by
  obtain ⟨j, hj, rfl⟩ := Option.map_eq_some_iff.mp hr
  obtain ⟨entries, rfl⟩ := Request.exists_object hj
  have hplain : Plain 2 (.object entries) := Request.plain_toJson hj
  obtain ⟨line, hdecode, hparse⟩ := hreads
  change W.readRequest line = .ok request at hparse
  rcases W.parse_of_prefix hW hcut (hplain.mono (by decide)) hpre hdecode with hline | ⟨e, hline⟩
  · rw [readRequest, hline] at hparse
    change (Request.deserialize _).mapError W.display = .ok request at hparse
    rw [Request.deserialize_toJson hj] at hparse
    exact (Except.ok.inj hparse).symm
  · rw [readRequest, hline] at hparse
    cases hparse

end Wire

/-- The response as its reader gets it. -/
def Response.delivered (response : Response) : Response :=
  if response.serialize.isSome then response else .err "response serialization failed"

theorem Response.exists_text {response : Response} (hfits : response.Fits) :
    ∃ entries, response.text = Json.write (.object entries) ∧ Plain 127 (.object entries) ∧
      record.read (.object entries) = .ok response.delivered := by
  have hexists : ∀ {response : Response} {j : Json}, response.Fits → response.toJson = some j →
      ∃ entries, j = .object entries ∧ Plain 127 (.object entries) ∧
        record.read (.object entries) = .ok response := by
    intro response j hfits hj
    obtain ⟨entries, rfl⟩ := Response.exists_object hj
    have hplain : Plain 4 (.object entries) := Response.plain_toJson hfits hj
    exact ⟨entries, rfl, hplain.mono (by decide), Response.read_toJson hfits hj⟩
  rw [text, delivered, serialize_eq]
  cases hj : response.toJson with
  | some j =>
    obtain ⟨entries, rfl, hplain, hread⟩ := hexists hfits hj
    exact ⟨entries, rfl, hplain, hread⟩
  | none =>
    obtain ⟨entries, heq, hplain, hread⟩ :=
      @hexists (.err "response serialization failed") _ (fun _ h => by cases h) rfl
    refine ⟨entries, ?_, hplain, hread⟩
    rw [← heq]
    decide

/-- Of a part of a response's line, `agentdctl` gets the response or an error. -/
theorem Wire.readLine_of_prefix (hW : W.ReadsPlain) (hcut : W.RejectsCut) {response : Response}
    (hfits : response.Fits) (hpre : piece <+: response.frame) {received : Response}
    (hread : W.readLine piece = .ok received) : received = response.delivered := by
  obtain ⟨entries, htext, hplain, hvalue⟩ := Response.exists_text hfits
  rw [Response.frame, htext] at hpre
  unfold readLine at hread
  cases hdecode : decodeLine piece with
  | none =>
    rw [hdecode] at hread
    cases hread
  | some line =>
    rw [hdecode] at hread
    rcases W.parse_of_prefix hW hcut hplain hpre hdecode with hline | ⟨e, hline⟩
    · simp only [readResponse, hline] at hread
      change ((Response.record.read _).mapError W.display).mapError _ = .ok received at hread
      rw [hvalue] at hread
      exact (Except.ok.inj hread).symm
    · simp only [readResponse, hline] at hread
      cases hread

/-! ## What a connection has done, also when an access has failed -/

/-- The task has answered lines that the client has sent, in order, it may have begun with another
one, and then an access may have failed.  What it has consumed ends with a line, or is all that the
client has sent. -/
structure Reported (T : ControlConfig) (ended : Bool) (log : List ConnectionDeed)
    (consumed : List UInt8) (exchanges : List Exchange) (pending : Option (List UInt8))
    (tail failed : List ConnectionDeed) : Prop where
  sent : consumed <+: clientStream log
  aligned : (∀ a ∈ consumed.getLast?, a = newline) ∨ ended = true ∧ consumed = clientStream log
  lines : requestLines consumed = exchanges.map Exchange.piece ++ pending.toList
  answers : ∀ x ∈ exchanges, Answer T x.piece x.executed x.response
  history : transcript log = exchanges.flatMap Exchange.deeds ++ tail ++ failed
  stage : ∃ requests stage, Pending T requests stage pending tail
  failed : failed = [] ∨ failed = [.failed]

/-- There is an account of what the task has done. -/
def HasReported (T : ControlConfig) (ended : Bool) (log : List ConnectionDeed) : Prop :=
  ∃ consumed exchanges pending tail failed,
    Reported T ended log consumed exchanges pending tail failed

namespace HasReported

theorem nil (T : ControlConfig) (ended : Bool) : HasReported T ended [] :=
  ⟨[], [], none, [], [], List.nil_prefix, .inl nofun, rfl, nofun, rfl, ⟨[], .reading, .reading⟩,
    .inl rfl⟩

/-- The client may end its input. -/
theorem mono {ended ended' : Bool} (h : HasReported T ended log)
    (hended : ended = true → ended' = true) : HasReported T ended' log := by
  obtain ⟨consumed, exchanges, pending, tail, failed, h⟩ := h
  exact ⟨consumed, exchanges, pending, tail, failed, h.sent,
    h.aligned.imp id fun ⟨hend, hall⟩ => ⟨hended hend, hall⟩, h.lines, h.answers, h.history,
    h.stage, h.failed⟩

/-- The client sends bytes. -/
theorem sent (h : HasReported T false log) (bytes : List UInt8) :
    HasReported T false (log ++ [.sent bytes]) := by
  obtain ⟨consumed, exchanges, pending, tail, failed, h⟩ := h
  refine ⟨consumed, exchanges, pending, tail, failed, ?_, .inl ?_, h.lines, h.answers, ?_, h.stage,
    h.failed⟩
  · rw [clientStream_append]
    exact h.sent.trans (List.prefix_append _ _)
  · exact h.aligned.resolve_right fun ⟨hend, _⟩ => absurd hend Bool.false_ne_true
  · rw [transcript_append, h.history]
    exact List.append_nil _

end HasReported

namespace Accounted

/-- The account of a connection whose accesses have not failed, with what is observed next. -/
theorem hasReported_append (h : Accounted T requests conn log)
    (hopen : ∀ result, conn.stage ≠ .returned result) {failed : List ConnectionDeed}
    (hfailed : failed = [] ∨ failed = [.failed]) : HasReported T conn.ended (log ++ failed) := by
  have hclient : clientStream (log ++ failed) = clientStream log := by
    rcases hfailed with rfl | rfl
    · rw [List.append_nil]
    · rw [clientStream_append]
      exact List.append_nil _
  have htranscript : transcript failed = failed := by
    rcases hfailed with rfl | rfl <;> rfl
  rcases h with ⟨consumed, exchanges, pending, tail, h⟩ | ⟨⟨e, hstage⟩, -⟩
  · refine ⟨consumed, exchanges, pending, tail, failed, ?_, ?_, h.lines, h.answers, ?_,
      ⟨requests, conn.stage, h.stage⟩, hfailed⟩
    · rw [hclient, h.stream]
      exact List.prefix_append _ _
    · refine h.aligned.imp id fun ⟨hended, hunread⟩ => ⟨hended, ?_⟩
      rw [hclient, h.stream, hunread, List.append_nil]
    · rw [transcript_append, h.history, htranscript]
  · exact absurd hstage (hopen _)

/-- As long as no access has failed, the account is that of `Serving`, or the lines in front of one
that is not UTF-8 are answered. -/
theorem hasReported (h : Accounted T requests conn log) (hclean : .failed ∉ log) :
    HasReported T conn.ended log := by
  rcases h with ⟨consumed, exchanges, pending, tail, h⟩ | h
  · refine ⟨consumed, exchanges, pending, tail, [], ?_, ?_, h.lines, h.answers, ?_,
      ⟨requests, conn.stage, h.stage⟩, .inl rfl⟩
    · rw [h.stream]
      exact List.prefix_append _ _
    · refine h.aligned.imp id fun ⟨hended, hunread⟩ => ⟨hended, ?_⟩
      rw [h.stream, hunread, List.append_nil]
    · rw [h.history, List.append_nil]
  · obtain ⟨consumed, piece, rest, exchanges, h⟩ := h.reason.resolve_left hclean
    refine ⟨consumed, exchanges, none, [], [], ?_, .inl h.front, ?_, h.answers, ?_,
      ⟨[], .reading, .reading⟩, .inl rfl⟩
    · rw [h.stream]
      exact List.prefix_append _ _
    · rw [h.lines, Option.toList_none, List.append_nil]
    · rw [h.history, List.append_nil, List.append_nil]

/-- No access of an open connection has failed. -/
theorem failed_notMem (h : Accounted T requests conn log)
    (hopen : ∀ result, conn.stage ≠ .returned result) : .failed ∉ log := by
  rcases h with ⟨consumed, exchanges, pending, tail, h⟩ | ⟨⟨e, hstage⟩, -⟩
  · exact h.clean
  · exact absurd hstage (hopen _)

end Accounted

/-- What can be observed of a step of the connection `conn` to `conn'`: the client sends, or
nothing, or the connection is open and an access may fail. -/
def Observes (conn conn' : Connection) (deeds : List ConnectionDeed) : Prop :=
  (conn.ended = true → conn'.ended = true) ∧
    ((conn.ended = false ∧ conn'.ended = false ∧ ∃ bytes, deeds = [.sent bytes]) ∨ deeds = [] ∨
      (∀ result, conn.stage ≠ .returned result) ∧ (deeds = [.failed] ∨ .failed ∉ deeds))

theorem Attends.observes (h : Attends T D conn D' conn' deeds) : Observes conn conn' deeds := by
  have hopen : ∀ {stage : ConnectionStage}, conn.stage = stage →
      (∀ result, stage ≠ .returned result) → ∀ result, conn.stage ≠ .returned result :=
    fun hstage hne => hstage ▸ hne
  obtain hstage | _ | _ | _ | hstage | hstage | _ | _ | _ | hstage | hstage := h
  · exact ⟨id, .inr (.inr ⟨hopen hstage nofun, .inl rfl⟩)⟩
  · exact ⟨id, .inr (.inl rfl)⟩
  · exact ⟨id, .inr (.inl rfl)⟩
  · exact ⟨id, .inr (.inl rfl)⟩
  · exact ⟨id, .inr (.inr ⟨hopen hstage nofun, .inr (by simp)⟩)⟩
  · exact ⟨id, .inr (.inr ⟨hopen hstage nofun, .inr (by simp)⟩)⟩
  · exact ⟨id, .inr (.inl rfl)⟩
  · exact ⟨id, .inr (.inl rfl)⟩
  · exact ⟨id, .inr (.inl rfl)⟩
  · exact ⟨id, .inr (.inr ⟨hopen hstage nofun, .inl rfl⟩)⟩
  · exact ⟨id, .inr (.inr ⟨hopen hstage nofun, .inr (by simp)⟩)⟩

/-- The operation that a connection waits for may be performed. -/
theorem observes_performs (conn : Connection) (D : Daemon) (i : ℕ) (o : ServeOutcome) :
    Observes conn conn (conn.performs D i o) := by
  refine ⟨id, ?_⟩
  unfold Connection.performs
  split
  · rename_i hstage _
    refine .inr (.inr ⟨fun result => by rw [hstage]; nofun, .inr ?_⟩)
    split <;> simp
  · exact .inr (.inl rfl)

/-- A connection after a step was there before, or nothing can be observed. -/
theorem ControlPlane.observes_of_step {a : ControlAction} (ha : a.OneLifetime)
    (hstep : (controlSystem C T).step S a = some S') (hconn' : S'.connections[c]? = some conn') :
    (S.connections[c]? = none ∧ S.deeds c a = []) ∨
      ∃ conn, S.connections[c]? = some conn ∧ Observes conn conn' (S.deeds c a) := by
  have hquiet : ∀ {deeds : List ConnectionDeed}, S.connections[c]? = some conn' → deeds = [] →
      ∃ conn, S.connections[c]? = some conn ∧ Observes conn conn' deeds :=
    fun hconn hnone => ⟨conn', hconn, id, .inr (.inl hnone)⟩
  -- a step of the client or the task of the connection `c'`
  have hset : ∀ {c' : ℕ} {conn₁ conn₂ : Connection} {deeds : List ConnectionDeed},
      S.connections[c']? = some conn₁ → (S.connections.set c' conn₂)[c]? = some conn' →
      (c' ≠ c → deeds = []) → (c' = c → Observes conn₁ conn₂ deeds) →
      ∃ conn, S.connections[c]? = some conn ∧ Observes conn conn' deeds := by
    intro c' conn₁ conn₂ deeds hconn₁ hconn₂ hother hself
    by_cases hc : c' = c
    · subst hc
      obtain rfl : conn₂ = conn' :=
        Option.some_inj.mp ((TaskPool.getElem?_set_self_of_mem hconn₁).symm.trans hconn₂)
      exact ⟨conn₁, hconn₁, hself rfl⟩
    · rw [List.getElem?_set_ne hc] at hconn₂
      exact hquiet hconn₂ (hother hc)
  cases a with
  | act a =>
    obtain ⟨D', -, rfl⟩ := step_act ha hstep
    right
    change S.connections[c]? = some conn' at hconn'
    by_cases hserve : ∃ i o, a = .serve i o
    · obtain ⟨i, o, rfl⟩ := hserve
      have hdeeds : S.deeds c (.act (.serve i o)) = conn'.performs S.daemon i o := by
        simp [deeds, hconn']
      rw [hdeeds]
      exact ⟨conn', hconn', observes_performs conn' S.daemon i o⟩
    · refine hquiet hconn' ?_
      cases a with
      | serve i o => exact absurd ⟨i, o, rfl⟩ hserve
      | _ => rfl
  | accept =>
    simp only [controlSystem, ControlPlane.step] at hstep
    split at hstep
    · obtain rfl := Option.some_inj.mp hstep
      rcases TaskPool.getElem?_append_cases hconn' with ⟨hnew, -⟩ | hold
      · exact .inl ⟨List.getElem?_eq_none_iff.mpr hnew.ge, rfl⟩
      · exact .inr (hquiet hold rfl)
    · cases hstep
  | send c' bytes =>
    obtain ⟨conn₁, hconn₁, hended, rfl⟩ := step_send hstep
    exact .inr (hset hconn₁ hconn' (fun hc => if_neg hc) fun hc =>
      ⟨id, .inl ⟨hended, hended, bytes, if_pos hc⟩⟩)
  | finish c' =>
    obtain ⟨conn₁, hconn₁, rfl⟩ := step_finish hstep
    exact .inr (hset hconn₁ hconn' (fun _ => rfl) fun _ => ⟨fun _ => rfl, .inr (.inl rfl)⟩)
  | serve c' o =>
    obtain ⟨conn₁, D', conn₂, hconn₁, hserve, rfl⟩ := step_serve hstep
    refine .inr (hset hconn₁ hconn' (fun hc => if_neg hc) fun hc => ?_)
    have hdeeds : S.deeds c (.serve c' o) = conn₁.deeds S.daemon o := by
      rw [deeds, if_pos hc, ← hc, hconn₁]
      rfl
    rw [hdeeds]
    exact (attends_of_serveConnection hserve).observes

/-- In one lifetime of the daemon there is an account of what every connection has done. -/
theorem ControlPlane.hasReported_of_run (hnew : S₀.connections.length ≤ c)
    (hrun : ((controlSystem C T).logging (ControlPlane.deeds c)).Run (fun _ a => a.OneLifetime)
      (S₀, []) (S, log)) : HasReported T true log := by
  have habsent : S₀.connections[c]? = none := List.getElem?_eq_none_iff.mpr hnew
  have hstart : ∀ conn, S₀.connections[c]? ≠ some conn := fun conn hconn => by
    rw [habsent] at hconn
    cases hconn
  obtain ⟨hlogs, hreported⟩ := hrun.invariant
    (I := fun x => x.1.Logs T c x.2 ∧
      ∀ conn, x.1.connections[c]? = some conn → HasReported T conn.ended x.2)
    ⟨⟨fun conn hconn => absurd hconn (hstart conn), fun _ => rfl⟩,
      fun conn hconn => absurd hconn (hstart conn)⟩ (by
    rintro ⟨S, log⟩ a ⟨S', log'⟩ ⟨hlogs, hreported⟩ ha hstep
    obtain ⟨hstep', rfl⟩ := step_logging hstep
    have hlogs' : S'.Logs T c (log ++ S.deeds c a) := hlogs.step ha hstep'
    refine ⟨hlogs', fun conn' hconn' => ?_⟩
    rcases observes_of_step ha hstep' hconn' with ⟨hnone, hquiet⟩ |
      ⟨conn, hconn, hended, ⟨hbefore, hafter, bytes, hsent⟩ | hquiet | ⟨hopen, hfailed | hclean⟩⟩
    · have hempty : log = [] := hlogs.absent hnone
      change HasReported T conn'.ended (log ++ S.deeds c a)
      rw [hquiet, hempty]
      exact .nil T _
    · change HasReported T conn'.ended (log ++ S.deeds c a)
      rw [hsent, hafter]
      exact (hbefore ▸ hreported conn hconn).sent bytes
    · change HasReported T conn'.ended (log ++ S.deeds c a)
      rw [hquiet, List.append_nil]
      exact (hreported conn hconn).mono hended
    · change HasReported T conn'.ended (log ++ S.deeds c a)
      rw [hfailed]
      exact ((hlogs.connected conn hconn).hasReported_append hopen (.inr rfl)).mono hended
    · refine (hlogs'.connected conn' hconn').hasReported ?_
      rw [List.mem_append, not_or]
      exact ⟨(hlogs.connected conn hconn).failed_notMem hopen, hclean⟩)
  cases hconn : S.connections[c]? with
  | none =>
    have hempty : log = [] := hlogs.absent hconn
    rw [hempty]
    exact .nil T true
  | some conn => exact (hreported conn hconn).mono fun _ => rfl

/-! ## One request -/

/-- The lines of a part of a single line. -/
theorem requestLines_of_prefix {line consumed : List UInt8} (hline : newline ∉ line)
    (hpre : consumed <+: line ++ [newline]) :
    requestLines consumed = [] ∨ requestLines consumed = [consumed] := by
  have hchop : chop newline consumed = [] ∨ chop newline consumed = [consumed] := by
    rcases List.prefix_concat_iff.mp hpre with rfl | hpart
    · exact .inr (chop_line hline)
    · by_cases hne : consumed = []
      · exact .inl (chop_eq_nil.mpr hne)
      · exact .inr (chop_of_notMem (fun h => hline (hpart.subset h)) hne)
  rcases hchop with hchop | hchop
  · exact .inl (by rw [requestLines, hchop]; rfl)
  · rw [requestLines, hchop]
    by_cases hblank : (decodeLine consumed).any isBlank = true
    · exact .inl (by simp [hblank])
    · exact .inr (by simp [hblank])

theorem executions_transcript (log : List ConnectionDeed) :
    executions (transcript log) = executions log := by
  rw [executions, transcript, List.filter_filter, executions]
  refine List.filter_congr fun deed _ => ?_
  cases deed <;> rfl

/-- What is done for a part of the line of a mutation: nothing, with an error in response, or the
operation is performed, with its result in response.  For the whole line it is performed. -/
theorem Answer.of_prefix (hW : W.ReadsPlain) (hcut : W.RejectsCut) (hr : r.serialize = some text)
    {op : ControlOp} (hop : r.op = some op) {executed : List ConnectionDeed} {response : Response}
    (h : Answer (W.config T) piece executed response)
    (hpre : piece <+: encode (text ++ ['\n'])) :
    (executed = [] ∧ piece ≠ encode (text ++ ['\n'])) ∨
      ∃ result, executed = [.performed op result] ∧ response = intoResp (W.config T) result := by
  have hsame : ∀ {request : Request}, (W.config T).Reads piece request → request = r :=
    fun hreads => Wire.reads_of_prefix hW hcut hr hpre hreads
  cases h with
  | undecodable hdecode =>
    left
    refine ⟨rfl, ?_⟩
    rintro rfl
    have hline := Wire.onLine_serialize hW T hr
    rw [ControlConfig.onLine, hdecode] at hline
    cases hline
  | malformed hdecode he =>
    left
    refine ⟨rfl, ?_⟩
    rintro rfl
    have hline := Wire.onLine_serialize hW T hr
    rw [ControlConfig.onLine, hdecode] at hline
    simp only [he] at hline
    split at hline <;> cases hline
  | performed hreads hop' =>
    obtain rfl := hsame hreads
    obtain rfl := Option.some_inj.mp (hop.symm.trans hop')
    exact .inr ⟨_, rfl, rfl⟩
  | listed hreads | reported hreads =>
    obtain rfl := hsame hreads
    cases hop

/-- What has been done for a part of the line of a mutation that is being served. -/
theorem Pending.of_prefix (hW : W.ReadsPlain) (hcut : W.RejectsCut) (hr : r.serialize = some text)
    {op : ControlOp} (hop : r.op = some op) {stage : ConnectionStage} {tail : List ConnectionDeed}
    (h : Pending (W.config T) requests stage (some piece) tail)
    (hpre : piece <+: encode (text ++ ['\n'])) :
    tail = [] ∨ ∃ result, tail = [.performed op result] := by
  cases h with
  | received | called => exact .inl rfl
  | performed hreads hop' =>
    obtain rfl := Wire.reads_of_prefix hW hcut hr hpre hreads
    obtain rfl := Option.some_inj.mp (hop.symm.trans hop')
    exact .inr ⟨_, rfl⟩
  | collecting hreads =>
    obtain rfl := Wire.reads_of_prefix hW hcut hr hpre hreads
    cases hop
  | writing hanswer =>
    rcases hanswer.of_prefix hW hcut hr hop hpre with ⟨rfl, -⟩ | ⟨result, rfl, -⟩
    · exact .inl rfl
    · exact .inr ⟨result, rfl⟩

theorem fits_intoResp (T : ControlConfig) (result : Except ConfigError Unit) :
    (intoResp T result).Fits := by
  cases result <;> exact fun _ h => by cases h

theorem delivered_intoResp (T : ControlConfig) (result : Except ConfigError Unit) :
    (intoResp T result).delivered = intoResp T result := by
  refine if_pos ((Response.isSome_serialize _).mpr ?_)
  cases result <;> exact ⟨nofun, nofun⟩

/-- Nothing has been done for a line that is not there. -/
theorem Pending.tail_eq_nil {stage : ConnectionStage} {tail : List ConnectionDeed}
    (h : Pending T requests stage none tail) : tail = [] := by
  cases h <;> rfl

theorem Exchange.executions_deeds (x : Exchange) : executions x.deeds = executions x.executed := by
  rw [Exchange.deeds, executions, List.filter_append]
  exact List.append_nil _

/-- What is carried out is in the account of the connection. -/
theorem Reported.executions_eq {ended : Bool} {consumed : List UInt8} {exchanges : List Exchange}
    {pending : Option (List UInt8)} {tail failed : List ConnectionDeed}
    (h : Reported T ended log consumed exchanges pending tail failed) :
    executions log = exchanges.flatMap (fun x => executions x.deeds) ++ executions tail := by
  have hfailed : executions failed = [] := by
    rcases h.failed with rfl | rfl <;> rfl
  rw [← executions_transcript, h.history, executions, List.filter_append, List.filter_append,
    List.filter_flatMap]
  change _ ++ executions failed = _
  rw [hfailed, List.append_nil]
  rfl

/-- What the client receives is in the account of the connection. -/
theorem Reported.serverStream_eq {ended : Bool} {consumed : List UInt8} {exchanges : List Exchange}
    {pending : Option (List UInt8)} {tail failed : List ConnectionDeed}
    (h : Reported T ended log consumed exchanges pending tail failed) :
    serverStream log =
      exchanges.flatMap (fun x => serverStream x.deeds) ++ serverStream tail := by
  have hfailed : serverStream failed = [] := by
    rcases h.failed with rfl | rfl <;> rfl
  rw [← serverStream_transcript, h.history, serverStream, List.flatMap_append, List.flatMap_append,
    List.flatMap_assoc]
  change _ ++ serverStream failed = _
  rw [hfailed, List.append_nil]
  rfl

/-- A line that has been consumed and that is not a part of what the client sent in the end is the
line that the client sent. -/
theorem Reported.eq_of_line {ended : Bool} {consumed : List UInt8} {exchanges : List Exchange}
    {pending : Option (List UInt8)} {tail failed : List ConnectionDeed} {line : List UInt8}
    (h : Reported T ended log consumed exchanges pending tail failed) (hline : newline ∉ line)
    (hne : consumed ≠ []) (hsent : clientStream log = line ++ [newline]) :
    consumed = line ++ [newline] := by
  rcases h.aligned with hlast | ⟨-, hall⟩
  · rcases List.prefix_concat_iff.mp (hsent ▸ h.sent) with hwhole | hpart
    · exact hwhole
    · have hlast' := hlast _ (List.getLast?_eq_getLast_of_ne_nil hne)
      exact absurd (hpart.subset (hlast' ▸ List.getLast_mem hne)) hline
  · rw [hall, hsent]

/-- What the connection of a client that sends the line of a mutation, or a part of it, has come to:
nothing is carried out and a response, if there is one, comes for a part of the line only; or the
operation was performed once, and the client is sent its result or nothing. -/
theorem HasReported.of_prefix (hW : W.ReadsPlain) (hcut : W.RejectsCut)
    (hr : r.serialize = some text) {op : ControlOp} (hop : r.op = some op)
    (h : HasReported (W.config T) true log) (hsent : clientStream log <+: encode (text ++ ['\n'])) :
    (executions log = [] ∧
      (serverStream log = [] ∨ clientStream log ≠ encode (text ++ ['\n']))) ∨
    ∃ result, executions log = [.performed op result] ∧
      (serverStream log = [] ∨ serverStream log = (intoResp (W.config T) result).frame) := by
  obtain ⟨consumed, exchanges, pending, tail, failed, h⟩ := h
  have hline : newline ∉ encode text := r.newline_notMem hr
  have hframe : encode (text ++ ['\n']) = encode text ++ [newline] := by
    rw [encode, encode, List.flatMap_append]
    rfl
  have hpre : consumed <+: encode (text ++ ['\n']) := h.sent.trans hsent
  have hexec := h.executions_eq
  have hserver := h.serverStream_eq
  obtain ⟨requests, stage, hstage⟩ := h.stage
  have hlines := h.lines
  rcases requestLines_of_prefix hline (hframe ▸ hpre) with hnone | hone
  · -- nothing has been read
    rw [hnone] at hlines
    obtain ⟨hmap, hpending⟩ := List.append_eq_nil_iff.mp hlines.symm
    obtain rfl := List.map_eq_nil_iff.mp hmap
    obtain rfl : pending = none := Option.toList_eq_nil_iff.mp hpending
    obtain rfl := hstage.tail_eq_nil
    exact .inl ⟨hexec, .inl hserver⟩
  · rw [hone] at hlines
    have hne : consumed ≠ [] := by
      rintro rfl
      cases hone
    rcases exchanges with _ | ⟨x, rest⟩
    · -- the line is being served
      obtain ⟨piece, rfl⟩ : ∃ piece, pending = some piece :=
        Option.ne_none_iff_exists'.mp fun hnone => by simp [hnone] at hlines
      obtain rfl := List.singleton_inj.mp hlines
      have hserver' : serverStream log = [] := by
        rw [hserver]
        rcases hstage.of_prefix hW hcut hr hop hpre with rfl | ⟨result, rfl⟩ <;> rfl
      rcases hstage.of_prefix hW hcut hr hop hpre with rfl | ⟨result, rfl⟩
      · exact .inl ⟨hexec, .inl hserver'⟩
      · exact .inr ⟨result, hexec, .inl hserver'⟩
    · -- the line has been answered
      obtain ⟨rfl, hrest⟩ := List.cons.inj hlines
      obtain ⟨hmap, hpending⟩ := List.append_eq_nil_iff.mp hrest.symm
      obtain rfl := List.map_eq_nil_iff.mp hmap
      obtain rfl : pending = none := Option.toList_eq_nil_iff.mp hpending
      obtain rfl := hstage.tail_eq_nil
      have hanswer := h.answers x (List.mem_singleton_self x)
      have hserver' : serverStream log = x.response.frame := by
        rw [hserver, List.flatMap_singleton, Exchange.deeds, serverStream, List.flatMap_append]
        change serverStream x.executed ++ _ ++ _ = _
        rw [hanswer.bytesWritten_eq_nil]
        simp [serverStream, ConnectionDeed.bytesWritten]
      have hexec' : executions log = executions x.executed := by
        rw [hexec, List.flatMap_singleton, x.executions_deeds]
        exact List.append_nil _
      rcases hanswer.of_prefix hW hcut hr hop hpre with
        ⟨hexecuted, hpart⟩ | ⟨result, hexecuted, hresponse⟩
      · refine .inl ⟨by rw [hexec', hexecuted]; rfl, .inr fun hwhole => hpart ?_⟩
        rw [hframe] at hwhole ⊢
        exact h.eq_of_line hline hne hwhole
      · exact .inr ⟨result, by rw [hexec', hexecuted]; rfl, .inr (hresponse ▸ hserver')⟩

/-! ## The exit of `agentdctl` -/

/-- The first line of a stream is a part of the stream. -/
theorem prefix_of_chop {l : List UInt8} {rest : List (List UInt8)}
    (h : chop newline l = piece :: rest) : piece <+: l := by
  have hall := flatten_chop newline l
  rw [h, List.flatten_cons] at hall
  exact ⟨_, hall⟩

/-- What `agentdctl` has read of a response is the response, or an error of its own. -/
theorem Wire.rpc_of_prefix (hW : W.ReadsPlain) (hcut : W.RejectsCut) {response : Response}
    (hfits : response.Fits) {received : List UInt8} {closed : Bool} {outcome : Response}
    (hreceived : received <+: response.frame) (h : W.rpc received closed = some (.ok outcome)) :
    outcome = response.delivered := by
  unfold rpc at h
  split at h
  · split at h <;> cases h
  · rename_i piece _ hchop
    split at h
    · exact readLine_of_prefix hW hcut hfits ((prefix_of_chop hchop).trans hreceived)
        (Option.some_inj.mp h)
    · cases h

/-- A response that has arrived whole is read. -/
theorem Wire.rpc_frame (hW : W.ReadsPlain) {response : Response} (hfits : response.Fits)
    (closed : Bool) : W.rpc response.frame closed = some (.ok response.delivered) := by
  have hchop : chop newline response.frame = [response.frame] := by
    simpa using Response.chop_frames [response]
  rw [rpc, hchop]
  dsimp only
  rw [if_pos (.inl (by rw [response.frame_eq, List.getLast?_concat])), readLine_frame hW hfits]
  rfl

/-- A registration, an update, a removal or a reload by `agentdctl`, in one lifetime of the daemon:
whatever part of the line it has sent, the operation is performed at most once and nothing else is
carried out for it; and when the line is sent, whatever part of the response it receives, it exits
with success only if the operation was performed without an error, a response that it reads is the
result of the operation, and a response that arrives whole is read.  Two things are assumed of the
text parser: it reads the compact text of a plain value (`ReadsPlain`), and it rejects such a text
when it is cut short (`RejectsCut`). -/
theorem rpc_exact (hW : W.ReadsPlain) (hcut : W.RejectsCut) (hr : r.serialize = some text)
    {op : ControlOp} (hop : r.op = some op) (hnew : S₀.connections.length ≤ c)
    (hrun : ((controlSystem C (W.config T)).logging (ControlPlane.deeds c)).Run
      (fun _ a => a.OneLifetime) (S₀, []) (S, log)) :
    (clientStream log <+: encode (text ++ ['\n']) →
      executions log = [] ∨ ∃ result, executions log = [.performed op result]) ∧
    (clientStream log = encode (text ++ ['\n']) →
      (∀ received closed outcome, received <+: serverStream log →
        W.rpc received closed = some outcome →
        (∀ out, rpcOk outcome = .success out → executions log = [.performed op (.ok ())]) ∧
        ∀ response, outcome = .ok response → ∃ result,
          executions log = [.performed op result] ∧ response = intoResp (W.config T) result) ∧
      ∀ closed, serverStream log ≠ [] → ∃ result, executions log = [.performed op result] ∧
        W.rpc (serverStream log) closed = some (.ok (intoResp (W.config T) result))) := by
  have hreported : HasReported (W.config T) true log := ControlPlane.hasReported_of_run hnew hrun
  refine ⟨fun hsent => ?_, fun hsent => ⟨?_, fun closed hserver => ?_⟩⟩
  · rcases hreported.of_prefix hW hcut hr hop hsent with ⟨hnone, -⟩ | ⟨result, hone, -⟩
    · exact .inl hnone
    · exact .inr ⟨result, hone⟩
  · intro received closed outcome hreceived hrpc
    -- a response that is read comes from the one result
    have hresponse : ∀ response, outcome = .ok response → ∃ result,
        executions log = [.performed op result] ∧ response = intoResp (W.config T) result := by
      rintro response rfl
      have hwritten : serverStream log ≠ [] := by
        intro hempty
        rw [hempty, List.prefix_nil] at hreceived
        subst hreceived
        cases closed <;> cases hrpc
      rcases hreported.of_prefix hW hcut hr hop (hsent ▸ List.prefix_rfl) with
        ⟨-, hserver | hpart⟩ | ⟨result, hone, hserver | hserver⟩
      · exact absurd hserver hwritten
      · exact absurd hsent hpart
      · exact absurd hserver hwritten
      · refine ⟨result, hone, ?_⟩
        rw [hserver] at hreceived
        rw [W.rpc_of_prefix hW hcut (fits_intoResp _ result) hreceived hrpc, delivered_intoResp]
    refine ⟨fun out hout => ?_, hresponse⟩
    rcases outcome with e | response
    · cases hout
    · obtain ⟨result, hone, rfl⟩ := hresponse response rfl
      rcases result with e | ⟨⟩
      · cases hout
      · exact hone
  · rcases hreported.of_prefix hW hcut hr hop (hsent ▸ List.prefix_rfl) with
      ⟨-, hnone | hpart⟩ | ⟨result, hone, hnone | hframe⟩
    · exact absurd hnone hserver
    · exact absurd hsent hpart
    · exact absurd hnone hserver
    · refine ⟨result, hone, ?_⟩
      rw [hframe, W.rpc_frame hW (fits_intoResp _ result), delivered_intoResp]

namespace Sample

theorem wire_rejectsCut : wire.RejectsCut := by
  intro entries text hplain hpre hne
  refine ⟨"expected value at line 1 column 1", ?_⟩
  simp [wire, Json.read_cut hplain hpre hne]

/-- The text of a reload. -/
def reloadText : List Char := "\x7b\"op\":\"reload\"\x7d".toList

/-- A reload is sent, carried out and answered. -/
def asksReload : List ControlAction :=
  connect ++ [.send 0 (encode (reloadText ++ ['\n']))] ++ attends 2 ++
    List.replicate 3 (.act (.serve 1 { load := .ok .empty })) ++ attends 2

end Sample

theorem rpc_exact_reload :
    ∃ S log, ((controlSystem Sample.dispatcherConfig
        (Sample.wire.config Sample.controlConfig)).logging (ControlPlane.deeds 0)).Run
        (fun _ a => a.OneLifetime) (⟨.start .empty .empty fun _ => none, []⟩, []) (S, log) ∧
      ∃ result, executions log = [.performed .reload result] ∧
        Sample.wire.rpc (serverStream log) false =
          some (.ok (intoResp (Sample.wire.config Sample.controlConfig) result)) := by
  obtain ⟨⟨S, log⟩, hrun, hend⟩ := exists_run_of_exec
    ((controlSystem Sample.dispatcherConfig
      (Sample.wire.config Sample.controlConfig)).logging (ControlPlane.deeds 0))
    (fun _ a => a.OneLifetime) (⟨.start .empty .empty fun _ => none, []⟩, []) Sample.asksReload
    (fun x =>
      clientStream x.2 == encode (Sample.reloadText ++ ['\n']) && !(serverStream x.2).isEmpty)
    (by decide +kernel)
  simp only [Bool.and_eq_true, beq_iff_eq, Bool.not_eq_true', List.isEmpty_eq_false_iff] at hend
  have htext : Request.reload.serialize = some Sample.reloadText := by decide
  have hexact := rpc_exact Sample.wire_readsPlain Sample.wire_rejectsCut htext rfl
    (Nat.zero_le 0) hrun
  exact ⟨S, log, hrun, (hexact.2 hend.1).2 false hend.2⟩

end Agentd
