import Agentd.Daemon.ControlPath
import Agentd.Daemon.ControlSocket

/-!
# Requests and responses of a connection

The control socket promises a response, on one line, for each line that a client sends.  This holds
as long as the lines are UTF-8: a response is a compact JSON text whatever the strings in it are,
and the task of a connection goes from one line to the next only when the response is written.  But
a line that is not UTF-8 is an error of `next_line`, with which `serve_connection` returns; the
client gets no response to this line, and none to what it sent after it.

`Serving` says what the task has done for the lines it has read, at every stage it can be at, and
every step of the daemon, the clients and the connections keeps it.  `framed_iff` says which
connections are served to the end of their input.
-/

namespace Agentd

open TransitionSystem TaskPool Lines JsonText

/-! ## Responses are single lines -/

theorem PathBuf.jsonText_serialize {p : PathBuf} {text : List Char} (h : p.serialize = some text) :
    JsonText text := by
  obtain ⟨s, -, rfl⟩ := Option.map_eq_some_iff.mp h
  exact .string s

theorem AgentConfig.jsonText_serialize {c : AgentConfig} {text : List Char}
    (h : c.serialize = some text) : JsonText text := by
  simp only [serialize, Option.bind_eq_bind, Option.bind_eq_some_iff] at h
  obtain ⟨handler, hhandler, cwd, hcwd, heq⟩ := h
  cases heq
  have hcwd' : JsonText cwd := by
    cases hdir : c.workingDirectory with
    | none =>
      rw [hdir] at hcwd
      cases hcwd
      exact .null
    | some p =>
      rw [hdir] at hcwd
      exact PathBuf.jsonText_serialize hcwd
  refine .object fun m hm => ?_
  simp only [List.mem_cons, List.not_mem_nil, or_false] at hm
  rcases hm with rfl | rfl | rfl | rfl | rfl
  · exact .string _
  · exact PathBuf.jsonText_serialize hhandler
  · exact .number _
  · exact hcwd'
  · exact .bool _

theorem jsonText_writeCount (n : Option UInt64) : JsonText (writeCount n) := by
  cases n with
  | none => exact .null
  | some n => exact .number _

theorem AgentStatus.jsonText_serialize {s : AgentStatus} {text : List Char}
    (h : s.serialize = some text) : JsonText text := by
  simp only [serialize, Option.bind_eq_bind, Option.bind_eq_some_iff] at h
  obtain ⟨handler, hhandler, heq⟩ := h
  cases heq
  refine .object fun m hm => ?_
  simp only [List.mem_cons, List.not_mem_nil, or_false] at hm
  rcases hm with rfl | rfl | rfl | rfl | rfl | rfl | rfl
  · exact .string _
  · exact PathBuf.jsonText_serialize hhandler
  · exact .number _
  · exact .bool _
  · exact .number _
  · exact jsonText_writeCount _
  · exact jsonText_writeCount _

/-- Items that are serialized one by one. -/
theorem jsonText_of_mapM {α : Type} {serialize : α → Option (List Char)}
    (hitem : ∀ a text, serialize a = some text → JsonText text) {l : List α}
    {items : List (List Char)} (h : l.mapM serialize = some items) :
    ∀ item ∈ items, JsonText item := by
  induction l generalizing items with
  | nil =>
    cases h
    simp
  | cons a l ih =>
    simp only [List.mapM_cons, Option.bind_eq_bind, Option.bind_eq_some_iff] at h
    obtain ⟨item, ha, rest, hrest, heq⟩ := h
    cases heq
    exact List.forall_mem_cons.mpr ⟨hitem a item ha, ih hrest⟩

theorem StatusReport.jsonText_serialize {report : StatusReport} {text : List Char}
    (h : report.serialize = some text) : JsonText text := by
  simp only [serialize, Option.bind_eq_bind, Option.bind_eq_some_iff] at h
  obtain ⟨agents, hagents, heq⟩ := h
  cases heq
  refine .object fun m hm => ?_
  simp only [List.mem_cons, List.not_mem_nil, or_false] at hm
  rcases hm with rfl | rfl | rfl
  · exact .string _
  · exact .bool _
  · exact .array (jsonText_of_mapM (fun _ _ => AgentStatus.jsonText_serialize) hagents)

theorem jsonText_of_optionalMember {α : Type} {name : String}
    {serialize : α → Option (List Char)}
    (hvalue : ∀ a text, serialize a = some text → JsonText text) {a : Option α}
    {members : List (String × List Char)} (h : optionalMember name serialize a = some members) :
    ∀ m ∈ members, JsonText m.2 := by
  cases a with
  | none =>
    cases h
    simp
  | some a =>
    obtain ⟨value, hser, rfl⟩ := Option.map_eq_some_iff.mp h
    simpa using hvalue a value hser

namespace Response

theorem jsonText_serialize {r : Response} {text : List Char} (h : r.serialize = some text) :
    JsonText text := by
  simp only [serialize, Option.bind_eq_bind, Option.bind_eq_some_iff] at h
  obtain ⟨error, herror, agents, hagents, status, hstatus, heq⟩ := h
  cases heq
  have herror' := jsonText_of_optionalMember (fun _ _ h => Option.some_inj.mp h ▸ .string _) herror
  have hagents' := jsonText_of_optionalMember (fun agents text h => by
    obtain ⟨items, hitems, rfl⟩ := Option.map_eq_some_iff.mp h
    exact .array (jsonText_of_mapM (fun _ _ => AgentConfig.jsonText_serialize) hitems)) hagents
  have hstatus' := jsonText_of_optionalMember (fun _ _ => StatusReport.jsonText_serialize) hstatus
  refine .object fun m hm => ?_
  simp only [List.cons_append, List.mem_cons, List.mem_append] at hm
  rcases hm with rfl | (hm | hm) | hm
  · exact .bool _
  · exact herror' m hm
  · exact hagents' m hm
  · exact hstatus' m hm

/-- The text of a response is compact JSON, also when the response cannot be serialized. -/
theorem jsonText_text (r : Response) : JsonText r.text := by
  rw [text]
  cases hser : r.serialize with
  | some text => exact jsonText_serialize hser
  | none =>
    have hfailed : serializationFailed = writeObject
        [("ok", writeBool false), ("error", writeString "response serialization failed")] := by
      decide
    rw [Option.getD_none, hfailed]
    exact .object fun m hm => by
      simp only [List.mem_cons, List.not_mem_nil, or_false] at hm
      rcases hm with rfl | rfl
      · exact .bool _
      · exact .string _

/-- A response is written as one line. -/
theorem frame_eq (r : Response) : r.frame = encode r.text ++ [newline] := by
  rw [frame, encode, List.flatMap_append]
  rfl

theorem newline_notMem (r : Response) : newline ∉ encode r.text :=
  newline_mem_encode.not.mpr (JsonText.newline_notMem r.jsonText_text)

/-- Responses that are written one after the other are read back line by line. -/
theorem chop_frames (responses : List Response) :
    chop newline (responses.flatMap frame) = responses.map frame := by
  have hframes : responses.flatMap frame =
      (responses.map fun r => encode r.text).flatMap (· ++ [newline]) := by
    simp only [List.flatMap_map, ← frame_eq]
  rw [hframes, Lines.chop_frames, List.map_map]
  · exact List.map_congr_left fun r _ => (frame_eq r).symm
  · intro line hline
    obtain ⟨r, -, rfl⟩ := List.mem_map.mp hline
    exact r.newline_notMem

end Response

/-! ## What a client is promised -/

/-- The lines of a stream that are not blank. -/
def requestLines (stream : List UInt8) : List (List UInt8) :=
  (chop newline stream).filter fun piece => !(decodeLine piece).any isBlank

/-- The line is the given request. -/
def ControlConfig.Reads (T : ControlConfig) (piece : List UInt8) (request : Request) : Prop :=
  ∃ line, decodeLine piece = some line ∧ T.fromStr line = .ok request

/-- The status of an agent of the registry. -/
structure AgentStatus.Shows (config : AgentConfig) (s : AgentStatus) : Prop where
  agentId : s.agentId = config.agentId
  handler : s.handler = config.handler
  maxConcurrency : s.maxConcurrency = config.maxConcurrency
  enabled : s.enabled = config.enabled

/-- What is done for a line, and the response to it. -/
inductive Answer (T : ControlConfig) : List UInt8 → List ConnectionDeed → Response → Prop
  | undecodable {piece : List UInt8} {response : Response} (h : decodeLine piece = none)
      (hok : response.ok = false) : Answer T piece [] response
  | malformed {piece : List UInt8} {line e : String} (h : decodeLine piece = some line)
      (he : T.fromStr line = .error e) : Answer T piece [] (.err ("malformed request: " ++ e))
  | performed {piece : List UInt8} {request : Request} {op : ControlOp}
      {result : Except ConfigError Unit} (h : T.Reads piece request)
      (hop : request.op = some op) : Answer T piece [.performed op result] (intoResp T result)
  | listed {piece : List UInt8} {agents : List AgentConfig} (h : T.Reads piece .list) :
      Answer T piece [.listed agents] { Response.okay with agents := some agents }
  | reported {piece : List UInt8} {agents : List AgentConfig} {report : StatusReport}
      (h : T.Reads piece .status) (hagents : agents.Forall₂ AgentStatus.Shows report.agents) :
      Answer T piece [.reported agents] { Response.okay with status := some report }

/-- A line with what is done for it and the response to it. -/
structure Exchange where
  piece : List UInt8
  executed : List ConnectionDeed
  response : Response

/-- What can be observed of an exchange: the request is executed, then the response is written. -/
def Exchange.deeds (x : Exchange) : List ConnectionDeed := x.executed ++ [.wrote x.response.frame]

namespace ConnectionDeed

def isSent : ConnectionDeed → Bool
  | .sent _ => true
  | _ => false

def bytesSent : ConnectionDeed → List UInt8
  | .sent bytes => bytes
  | _ => []

def bytesWritten : ConnectionDeed → List UInt8
  | .wrote bytes => bytes
  | _ => []

def isFailed : ConnectionDeed → Bool
  | .failed => true
  | _ => false

end ConnectionDeed

/-- The stream that the client has sent. -/
def clientStream (log : List ConnectionDeed) : List UInt8 := log.flatMap ConnectionDeed.bytesSent

/-- The stream that the client receives. -/
def serverStream (log : List ConnectionDeed) : List UInt8 :=
  log.flatMap ConnectionDeed.bytesWritten

/-- What the task of the connection has done. -/
def transcript (log : List ConnectionDeed) : List ConnectionDeed :=
  log.filter fun deed => !deed.isSent

/-- Every line of the stream that is not blank has been answered, in order, and nothing else has
been done; and the client finds one response on each line that it receives. -/
structure Framed (T : ControlConfig) (log : List ConnectionDeed) (stream : List UInt8)
    (exchanges : List Exchange) : Prop where
  lines : exchanges.map Exchange.piece = requestLines stream
  answers : ∀ x ∈ exchanges, Answer T x.piece x.executed x.response
  history : transcript log = exchanges.flatMap Exchange.deeds
  received : chop newline (serverStream log) = exchanges.map fun x => x.response.frame
  json : ∀ x ∈ exchanges, JsonText x.response.text

/-! ## At every stage -/

/-- The operation has performed its mutation, with the given result. -/
def RequestStage.Settled (result : Except ConfigError Unit) : RequestStage → Prop
  | .registry _ => False
  | .dispatcher _ | .relay .. => result = .ok ()
  | .returned result' => result' = result

/-- The line that is being served at a stage, if there is one, and what has been done for it. -/
inductive Pending (T : ControlConfig) (requests : List RequestStage) :
    ConnectionStage → Option (List UInt8) → List ConnectionDeed → Prop
  | reading : Pending T requests .reading none []
  | received {piece : List UInt8} {request : Request} (h : T.Reads piece request) :
      Pending T requests (.received request) (some piece) []
  | called {piece : List UInt8} {request : Request} {op : ControlOp} {r : ℕ}
      (h : T.Reads piece request) (hop : request.op = some op)
      (hr : requests[r]? = some (.registry op)) :
      Pending T requests (.waiting r) (some piece) []
  | performed {piece : List UInt8} {request : Request} {op : ControlOp} {r : ℕ}
      {stage : RequestStage} {result : Except ConfigError Unit}
      (h : T.Reads piece request) (hop : request.op = some op) (hr : requests[r]? = some stage)
      (hstage : stage.Settled result) :
      Pending T requests (.waiting r) (some piece) [.performed op result]
  | collecting {piece : List UInt8} {done remaining : List AgentConfig}
      {agents : List AgentStatus} (h : T.Reads piece .status)
      (hagents : done.Forall₂ AgentStatus.Shows agents) :
      Pending T requests (.collecting remaining agents) (some piece)
        [.reported (done ++ remaining)]
  | writing {piece : List UInt8} {tail : List ConnectionDeed} {response : Response}
      (h : Answer T piece tail response) :
      Pending T requests (.writing response) (some piece) tail
  | returned : Pending T requests (.returned (.ok ())) none []

/-- What the task has done for the lines it has read. -/
structure Serving (T : ControlConfig) (requests : List RequestStage) (conn : Connection)
    (log : List ConnectionDeed) (consumed : List UInt8) (exchanges : List Exchange)
    (pending : Option (List UInt8)) (tail : List ConnectionDeed) : Prop where
  stream : clientStream log = consumed ++ conn.unread
  aligned : (∀ a ∈ consumed.getLast?, a = newline) ∨ conn.ended = true ∧ conn.unread = []
  decodes : ∀ piece ∈ chop newline consumed, (decodeLine piece).isSome = true
  lines : requestLines consumed = exchanges.map Exchange.piece ++ pending.toList
  answers : ∀ x ∈ exchanges, Answer T x.piece x.executed x.response
  history : transcript log = exchanges.flatMap Exchange.deeds ++ tail
  clean : .failed ∉ log
  stage : Pending T requests conn.stage pending tail
  closed : ∀ result, conn.stage = .returned result → conn.ended = true ∧ conn.unread = []

/-- The lines in front of `piece` are answered, and `piece` is a line that is not UTF-8. -/
structure Undecoded (T : ControlConfig) (ended : Bool) (log : List ConnectionDeed)
    (consumed piece rest : List UInt8) (exchanges : List Exchange) : Prop where
  stream : clientStream log = consumed ++ (piece ++ rest)
  front : ∀ a ∈ consumed.getLast?, a = newline
  single : chop newline piece = [piece]
  back : (∀ a ∈ piece.getLast?, a = newline) ∨ ended = true ∧ rest = []
  undecodable : decodeLine piece = none
  lines : requestLines consumed = exchanges.map Exchange.piece
  answers : ∀ x ∈ exchanges, Answer T x.piece x.executed x.response
  history : transcript log = exchanges.flatMap Exchange.deeds

/-- The service has ended with an error, for a reason. -/
structure Broken (T : ControlConfig) (conn : Connection) (log : List ConnectionDeed) : Prop where
  stage : ∃ e, conn.stage = .returned (.error e)
  reason : .failed ∈ log ∨ ∃ consumed piece rest exchanges,
    Undecoded T conn.ended log consumed piece rest exchanges

/-- The connection is served, or broken. -/
def Accounted (T : ControlConfig) (requests : List RequestStage) (conn : Connection)
    (log : List ConnectionDeed) : Prop :=
  (∃ consumed exchanges pending tail,
    Serving T requests conn log consumed exchanges pending tail) ∨ Broken T conn log

variable {C : DispatcherConfig} {T : ControlConfig} {requests requests' : List RequestStage}
variable {conn conn' : Connection} {log deeds tail : List ConnectionDeed}
variable {consumed rest : List UInt8} {exchanges : List Exchange} {pending : Option (List UInt8)}
variable {D D' : Daemon} {S S' : ControlPlane} {c : ℕ} {stage : ConnectionStage}

/-- The lines of a stream that is cut behind an end of line. -/
theorem requestLines_append {l r : List UInt8} (h : ∀ a ∈ l.getLast?, a = newline) :
    requestLines (l ++ r) = requestLines l ++ requestLines r := by
  rw [requestLines, chop_append h, List.filter_append]
  rfl

theorem clientStream_append (log deeds : List ConnectionDeed) :
    clientStream (log ++ deeds) = clientStream log ++ clientStream deeds := List.flatMap_append

theorem transcript_append (log deeds : List ConnectionDeed) :
    transcript (log ++ deeds) = transcript log ++ transcript deeds := List.filter_append ..

/-- What a line that is being served has come to does not depend on later operations. -/
theorem Pending.mono (h : Pending T requests stage pending tail)
    (hkeep : ∀ (r : ℕ) s, requests[r]? = some s → requests'[r]? = some s) :
    Pending T requests' stage pending tail := by
  cases h with
  | reading => exact .reading
  | received h => exact .received h
  | called h hop hr => exact .called h hop (hkeep _ _ hr)
  | performed h hop hr hstage => exact .performed h hop (hkeep _ _ hr) hstage
  | collecting h hagents => exact .collecting h hagents
  | writing h => exact .writing h
  | returned => exact .returned

/-- The operations of the daemon matter only for what the task waits for. -/
theorem Serving.of_requests (h : Serving T requests conn log consumed exchanges pending tail)
    (hstage : Pending T requests' conn.stage pending tail) :
    Serving T requests' conn log consumed exchanges pending tail :=
  ⟨h.stream, h.aligned, h.decodes, h.lines, h.answers, h.history, h.clean, hstage, h.closed⟩

theorem Accounted.mono (h : Accounted T requests conn log)
    (hkeep : ∀ (r : ℕ) s, requests[r]? = some s → requests'[r]? = some s) :
    Accounted T requests' conn log := by
  rcases h with ⟨consumed, exchanges, pending, tail, h⟩ | h
  · exact .inl ⟨consumed, exchanges, pending, tail, h.of_requests (h.stage.mono hkeep)⟩
  · exact .inr h

namespace Serving

/-- The task goes on with the line that it serves. -/
theorem advance (h : Serving T requests conn log consumed exchanges pending tail)
    (hstream : clientStream deeds = []) (hdeeds : transcript deeds = deeds)
    (hclean : .failed ∉ deeds) (hopen : ∀ result, stage ≠ .returned result)
    (hstage : Pending T requests' stage pending (tail ++ deeds)) :
    Accounted T requests' { conn with stage } (log ++ deeds) := by
  refine .inl ⟨consumed, exchanges, pending, tail ++ deeds, ?_, h.aligned, h.decodes, h.lines,
    h.answers, ?_, ?_, hstage, fun result hresult => absurd hresult (hopen result)⟩
  · rw [clientStream_append, hstream, List.append_nil, h.stream]
  · rw [transcript_append, h.history, hdeeds, List.append_assoc]
  · rw [List.mem_append, not_or]
    exact ⟨h.clean, hclean⟩

/-- The response is written. -/
theorem finish {piece : List UInt8} {response : Response}
    (h : Serving T requests conn log consumed exchanges (some piece) tail)
    (hanswer : Answer T piece tail response) :
    Serving T requests { conn with stage := .reading } (log ++ [.wrote response.frame]) consumed
      (exchanges ++ [⟨piece, tail, response⟩]) none [] where
  stream := by rw [clientStream_append, h.stream]; exact List.append_nil _
  aligned := h.aligned
  decodes := h.decodes
  lines := by
    rw [h.lines, List.map_append]
    simp
  answers := by
    intro x hx
    rcases List.mem_append.mp hx with hx | hx
    · exact h.answers x hx
    · obtain rfl := List.mem_singleton.mp hx
      exact hanswer
  history := by
    rw [transcript_append, h.history, List.flatMap_append, List.append_assoc]
    simp [transcript, ConnectionDeed.isSent, Exchange.deeds]
  clean := by simpa using h.clean
  stage := .reading
  closed := nofun

/-- The input ends. -/
theorem inputEnd (h : Serving T requests conn log consumed exchanges pending tail)
    (hstage : conn.stage = .reading) (hended : conn.ended = true) (hunread : conn.unread = []) :
    Serving T requests { conn with stage := .returned (.ok ()) } log consumed exchanges pending
      tail where
  stream := h.stream
  aligned := h.aligned
  decodes := h.decodes
  lines := h.lines
  answers := h.answers
  history := h.history
  clean := h.clean
  stage := by
    have hpending := h.stage
    rw [hstage] at hpending
    cases hpending
    exact .returned
  closed _ _ := ⟨hended, hunread⟩

/-- A line is read. -/
theorem readLine {piece : List UInt8} {rest : List (List UInt8)}
    (h : Serving T requests conn log consumed exchanges pending tail)
    (hstage : conn.stage = .reading) (hchop : chop newline conn.unread = piece :: rest)
    (hline : piece.getLast? = some newline ∨ conn.ended = true) :
    Accounted T requests { conn with unread := rest.flatten, stage := T.onLine piece } log := by
  have hpending := h.stage
  rw [hstage] at hpending
  obtain ⟨rfl, rfl⟩ : pending = none ∧ tail = [] := by
    cases hpending
    exact ⟨rfl, rfl⟩
  have hfront : ∀ a ∈ consumed.getLast?, a = newline := by
    refine h.aligned.resolve_right fun hdone => ?_
    rw [hdone.2] at hchop
    cases hchop
  have hunread : conn.unread = piece ++ rest.flatten := by
    rw [← flatten_chop newline conn.unread, hchop]
    rfl
  have hmem : piece ∈ chop newline conn.unread := hchop ▸ List.mem_cons_self
  have hpiece : chop newline piece = [piece] := chop_of_mem hmem
  have hstream : clientStream log = consumed ++ piece ++ rest.flatten := by
    rw [h.stream, hunread, List.append_assoc]
  have hback : (∀ a ∈ piece.getLast?, a = newline) ∨ conn.ended = true ∧ rest.flatten = [] := by
    by_cases hlast : piece.getLast? = some newline
    · exact .inl fun a ha => (Option.some_inj.mp (hlast.symm.trans ha)).symm
    · have hrest : rest = [] := by
        by_contra hne
        exact hlast (getLast?_of_chop_cons hchop hne)
      exact .inr ⟨hline.resolve_left hlast, by rw [hrest, List.flatten_nil]⟩
  have haligned : (∀ a ∈ (consumed ++ piece).getLast?, a = newline) ∨
      conn.ended = true ∧ rest.flatten = [] := by
    refine hback.imp (fun hlast a ha => ?_) id
    rw [List.getLast?_append_of_ne_nil _ (chop_ne_nil hmem)] at ha
    exact hlast a ha
  have hdecoded : ∀ {stage' : ConnectionStage} {pending' : Option (List UInt8)},
      (decodeLine piece).isSome = true → requestLines piece = pending'.toList →
      Pending T requests stage' pending' [] → (∀ result, stage' ≠ .returned result) →
      Accounted T requests { conn with unread := rest.flatten, stage := stage' } log := by
    intro stage' pending' hsome hlines hpending' hopen
    refine .inl ⟨consumed ++ piece, exchanges, pending', [], hstream, haligned, ?_, ?_, h.answers,
      h.history, h.clean, hpending', fun result hresult => absurd hresult (hopen result)⟩
    · intro q hq
      rw [chop_append hfront, hpiece, List.mem_append, List.mem_singleton] at hq
      rcases hq with hq | rfl
      · exact h.decodes q hq
      · exact hsome
    · rw [requestLines_append hfront, h.lines, hlines]
      simp
  rw [ControlConfig.onLine]
  cases hdecode : decodeLine piece with
  | none =>
    refine .inr ⟨⟨.invalidData, rfl⟩, .inr ⟨consumed, piece, rest.flatten, exchanges, ?_, hfront,
      hpiece, hback, hdecode, ?_, h.answers, ?_⟩⟩
    · rw [hstream, List.append_assoc]
    · rw [h.lines, Option.toList_none, List.append_nil]
    · rw [h.history, List.append_nil]
  | some line =>
    have hsome : (decodeLine piece).isSome = true := by rw [hdecode]; rfl
    cases hblank : isBlank line with
    | true =>
      have hlines : requestLines piece = (none : Option (List UInt8)).toList := by
        simp [requestLines, hpiece, hdecode, hblank]
      simpa [hblank] using hdecoded hsome hlines Pending.reading (by simp)
    | false =>
      have hlines : requestLines piece = (some piece).toList := by
        simp [requestLines, hpiece, hdecode, hblank]
      cases hparse : T.fromStr line with
      | ok request =>
        simpa [hblank, hparse] using
          hdecoded hsome hlines (Pending.received ⟨line, hdecode, hparse⟩) (by simp)
      | error e =>
        simpa [hblank, hparse] using
          hdecoded hsome hlines (Pending.writing (.malformed hdecode hparse)) (by simp)

/-- Every access of the task keeps account of what it does. -/
theorem attends (h : Serving T D.requests conn log consumed exchanges pending tail)
    (ha : Attends T D conn D' conn' deeds) : Accounted T D'.requests conn' (log ++ deeds) := by
  have hpending := h.stage
  cases ha with
  | readFail hstage => exact .inr ⟨⟨_, rfl⟩, .inl (List.mem_append_right _ List.mem_cons_self)⟩
  | inputEnd hstage hunread hended =>
    rw [List.append_nil]
    exact .inl ⟨consumed, exchanges, pending, tail, h.inputEnd hstage hended hunread⟩
  | line hstage hchop hline =>
    rw [List.append_nil]
    exact h.readLine hstage hchop hline
  | call hstage hop =>
    rw [hstage] at hpending
    cases hpending with
    | received hread =>
      exact h.advance rfl rfl (by simp) nofun (.called hread hop List.getElem?_concat_length)
  | list hstage =>
    rw [hstage] at hpending
    cases hpending with
    | received hread =>
      exact h.advance rfl rfl (by simp) nofun (.writing (.listed hread))
  | status hstage =>
    rw [hstage] at hpending
    cases hpending with
    | received hread =>
      have hshown : ([] : List AgentConfig).Forall₂ AgentStatus.Shows [] := .nil
      exact h.advance rfl rfl (by simp) nofun (.collecting hread hshown)
  | answer hstage hresult =>
    rw [hstage] at hpending
    cases hpending with
    | called hread hop hr =>
      rw [hresult] at hr
      cases hr
    | performed hread hop hr hsettled =>
      rw [hresult] at hr
      cases hr
      cases hsettled
      exact h.advance rfl rfl (by simp) nofun (.writing (.performed hread hop))
  | @collect config remaining agents backlog hstage =>
    rw [hstage] at hpending
    cases hpending with
    | @collecting piece done _ _ hread hagents =>
      have hshown : (done ++ [config]).Forall₂ AgentStatus.Shows
          (agents ++ [D.statusOf config backlog]) :=
        List.rel_append hagents (.cons ⟨rfl, rfl, rfl, rfl⟩ .nil)
      have hpending' : Pending T D.requests
          (.collecting remaining (agents ++ [D.statusOf config backlog])) (some piece)
          [.reported (done ++ [config] ++ remaining)] := .collecting hread hshown
      rw [List.append_assoc, List.singleton_append] at hpending'
      exact h.advance rfl rfl (by simp) nofun hpending'
  | report hstage =>
    rw [hstage] at hpending
    cases hpending with
    | @collecting piece done _ _ hread hagents =>
      have hagents' := hagents
      rw [← List.append_nil done] at hagents'
      exact h.advance rfl rfl (by simp) nofun (.writing (.reported hread hagents'))
  | writeFail hstage => exact .inr ⟨⟨_, rfl⟩, .inl (List.mem_append_right _ List.mem_cons_self)⟩
  | write hstage =>
    rw [hstage] at hpending
    cases hpending with
    | writing hanswer => exact .inl ⟨consumed, _, none, [], h.finish hanswer⟩

end Serving

/-- The accesses that follow the mutation do not change its result. -/
theorem RequestStage.Settled.serves {o : ServeOutcome} {stage stage' : RequestStage}
    {result : Except ConfigError Unit} (h : stage.Settled result)
    (hserves : Serves D o stage D' stage') : stage'.Settled result := by
  cases hserves with
  | change | refuse => exact h.elim
  | finish => exact h.symm
  | _ => exact h

/-- An access of an operation performs it for the connection that waits for it, or is of no concern
to the connection. -/
theorem Serving.serve {r : ℕ} {o : ServeOutcome} {stage stage' : RequestStage}
    (h : Serving T D.requests conn log consumed exchanges pending tail)
    (hget : D.requests[r]? = some stage) (hserves : Serves D o stage D' stage') :
    Accounted T (D.requests.set r stage') conn (log ++ conn.performs D r o) := by
  have hset : (D.requests.set r stage')[r]? = some stage' := getElem?_set_self_of_mem hget
  have hother : ∀ {r'}, r' ≠ r → (D.requests.set r stage')[r']? = D.requests[r']? := fun hne =>
    List.getElem?_set_ne (Ne.symm hne)
  have hquiet : conn.performs D r o = [] → Pending T (D.requests.set r stage') conn.stage pending
      tail → Accounted T (D.requests.set r stage') conn (log ++ conn.performs D r o) := by
    intro hnone hpending
    rw [hnone, List.append_nil]
    exact .inl ⟨consumed, exchanges, pending, tail, h.of_requests hpending⟩
  have hpending := h.stage
  generalize hstage : conn.stage = current at hpending hquiet
  cases hpending with
  | reading => exact hquiet (by simp [Connection.performs, hstage]) .reading
  | received hread => exact hquiet (by simp [Connection.performs, hstage]) (.received hread)
  | collecting hread hagents =>
    exact hquiet (by simp [Connection.performs, hstage]) (.collecting hread hagents)
  | writing hanswer => exact hquiet (by simp [Connection.performs, hstage]) (.writing hanswer)
  | returned => exact hquiet (by simp [Connection.performs, hstage]) .returned
  | @performed piece request op r' stage₁ result hread hop hr hsettled =>
    by_cases hr' : r' = r
    · subst hr'
      obtain rfl : stage = stage₁ := Option.some_inj.mp (hget.symm.trans hr)
      refine hquiet ?_ (.performed hread hop hset (hsettled.serves hserves))
      cases stage with
      | registry op => exact hsettled.elim
      | _ => simp [Connection.performs, hstage, hget]
    · exact hquiet (Connection.performs_of_ne hstage hr')
        (.performed hread hop ((hother hr').trans hr) hsettled)
  | @called piece request op r' hread hop hr =>
    by_cases hr' : r' = r
    · subst hr'
      obtain rfl : stage = .registry op := Option.some_inj.mp (hget.symm.trans hr)
      have hresult : stage'.Settled ((op.perform D.registry o).map fun _ => ()) := by
        cases hserves with
        | change hperform | refuse hperform =>
          rw [hperform]
          rfl
      have hconn : conn = { conn with stage := .waiting r' } := by rw [← hstage]
      rw [Connection.performs_eq hstage hr, hconn]
      exact h.advance rfl rfl (by simp) (by simp) (.performed hread hop hset hresult)
    · exact hquiet (Connection.performs_of_ne hstage hr')
        (.called hread hop ((hother hr').trans hr))

namespace Accounted

theorem attends (h : Accounted T D.requests conn log) (ha : Attends T D conn D' conn' deeds) :
    Accounted T D'.requests conn' (log ++ deeds) := by
  rcases h with ⟨consumed, exchanges, pending, tail, h⟩ | ⟨⟨e, hstage⟩, -⟩
  · exact h.attends ha
  · cases ha <;> simp_all

theorem serve {r : ℕ} {o : ServeOutcome} {stage stage' : RequestStage}
    (h : Accounted T D.requests conn log) (hget : D.requests[r]? = some stage)
    (hserves : Serves D o stage D' stage') :
    Accounted T (D.requests.set r stage') conn (log ++ conn.performs D r o) := by
  rcases h with ⟨consumed, exchanges, pending, tail, h⟩ | h
  · exact h.serve hget hserves
  · obtain ⟨e, hstage⟩ := h.stage
    have hquiet : conn.performs D r o = [] := by simp [Connection.performs, hstage]
    rw [hquiet, List.append_nil]
    exact .inr h

/-- The client sends bytes. -/
theorem send (h : Accounted T requests conn log) (hended : conn.ended = false)
    (bytes : List UInt8) :
    Accounted T requests { conn with unread := conn.unread ++ bytes }
      (log ++ [.sent bytes]) := by
  have hclient : clientStream (log ++ [.sent bytes]) = clientStream log ++ bytes := by
    rw [clientStream_append]
    simp [clientStream, ConnectionDeed.bytesSent]
  have htranscript : transcript (log ++ [.sent bytes]) = transcript log := by
    rw [transcript_append]
    exact List.append_nil _
  have hopen : conn.ended ≠ true := by simp [hended]
  rcases h with ⟨consumed, exchanges, pending, tail, h⟩ | h
  · refine .inl ⟨consumed, exchanges, pending, tail, ?_, ?_, h.decodes, h.lines, h.answers, ?_, ?_,
      h.stage, fun result hresult => absurd (h.closed result hresult).1 hopen⟩
    · rw [hclient, h.stream, List.append_assoc]
    · exact h.aligned.imp id fun hdone => absurd hdone.1 hopen
    · rw [htranscript, h.history]
    · simpa using h.clean
  · refine .inr ⟨h.stage, h.reason.imp (List.mem_append_left _) ?_⟩
    rintro ⟨consumed, piece, rest, exchanges, h⟩
    refine ⟨consumed, piece, rest ++ bytes, exchanges, ?_, h.front, h.single, ?_, h.undecodable,
      h.lines, h.answers, ?_⟩
    · rw [hclient, h.stream, List.append_assoc, List.append_assoc]
    · exact .inl (h.back.resolve_right fun hdone => hopen hdone.1)
    · rw [htranscript, h.history]

/-- The client ends its input. -/
theorem finish (h : Accounted T requests conn log) :
    Accounted T requests { conn with ended := true } log := by
  rcases h with ⟨consumed, exchanges, pending, tail, h⟩ | h
  · exact .inl ⟨consumed, exchanges, pending, tail, h.stream, h.aligned.imp id fun hdone =>
      ⟨rfl, hdone.2⟩, h.decodes, h.lines, h.answers, h.history, h.clean, h.stage,
      fun result hresult => ⟨rfl, (h.closed result hresult).2⟩⟩
  · refine .inr ⟨h.stage, h.reason.imp id ?_⟩
    rintro ⟨consumed, piece, rest, exchanges, h⟩
    exact ⟨consumed, piece, rest, exchanges, h.stream, h.front, h.single,
      h.back.imp id fun hdone => ⟨rfl, hdone.2⟩, h.undecodable, h.lines, h.answers, h.history⟩

/-- A new connection. -/
theorem accepted (T : ControlConfig) (requests : List RequestStage) :
    Accounted T requests ⟨[], false, .reading⟩ [] :=
  .inl ⟨[], [], none, [], rfl, .inl (by simp), by simp, rfl, by simp, rfl, by simp, .reading, nofun⟩

end Accounted

/-! ## The daemon with its connections -/

/-- An action of one lifetime of the daemon. -/
def ControlAction.OneLifetime : ControlAction → Prop
  | .act a => a.OneLifetime
  | _ => True

instance : DecidablePred ControlAction.OneLifetime
  | .act a => inferInstanceAs (Decidable a.OneLifetime)
  | .accept | .send .. | .finish _ | .serve .. => inferInstanceAs (Decidable True)

/-- The connection `c` is accounted for by the log, once it is accepted. -/
structure ControlPlane.Logs (T : ControlConfig) (c : ℕ) (S : ControlPlane)
    (log : List ConnectionDeed) : Prop where
  connected : ∀ conn, S.connections[c]? = some conn → Accounted T S.daemon.requests conn log
  absent : S.connections[c]? = none → log = []

namespace ControlPlane

/-- In one lifetime, an action of the daemon leaves the connections alone. -/
theorem step_act {a : DaemonAction} (ha : a.OneLifetime)
    (h : (controlSystem C T).step S (.act a) = some S') :
    ∃ D', (daemonSystem C).step S.daemon a = some D' ∧ S' = { S with daemon := D' } := by
  cases a with
  | restart => exact ha.elim
  | _ =>
    obtain ⟨D', hD', rfl⟩ := Option.map_eq_some_iff.mp h
    exact ⟨D', hD', rfl⟩

namespace Logs

/-- The daemon goes on without performing an operation. -/
theorem of_requests (h : S.Logs T c log)
    (hrequests : D'.requests = S.daemon.requests ∨
      ∃ op, D'.requests = S.daemon.requests ++ [.registry op]) :
    Logs T c { S with daemon := D' } log := by
  refine ⟨fun conn hconn => (h.connected conn hconn).mono fun r stage hr => ?_, h.absent⟩
  rcases hrequests with hsame | ⟨op, happend⟩
  · rwa [hsame]
  · rw [happend]
    exact getElem?_append_of_some hr

/-- A step of the client or the task of a connection. -/
theorem of_set {c' : ℕ} {conn conn' : Connection} (h : S.Logs T c log)
    (hconn : S.connections[c']? = some conn) (hquiet : c' ≠ c → deeds = [])
    (hother : ∀ conn, Accounted T S.daemon.requests conn log → Accounted T D'.requests conn log)
    (hself : c' = c → Accounted T S.daemon.requests conn log →
      Accounted T D'.requests conn' (log ++ deeds)) :
    Logs T c ⟨D', S.connections.set c' conn'⟩ (log ++ deeds) := by
  by_cases hc : c' = c
  · subst hc
    have hget : (S.connections.set c' conn')[c']? = some conn' := getElem?_set_self_of_mem hconn
    refine ⟨fun conn₁ hconn₁ => ?_, fun hnone => ?_⟩
    · obtain rfl : conn' = conn₁ := Option.some_inj.mp (hget.symm.trans hconn₁)
      exact hself rfl (h.connected conn hconn)
    · exact absurd (hget.symm.trans hnone) (Option.some_ne_none _)
  · have hget : (S.connections.set c' conn')[c]? = S.connections[c]? := List.getElem?_set_ne hc
    rw [hquiet hc, List.append_nil]
    exact ⟨fun conn₁ hconn₁ => hother _ (h.connected conn₁ (hget.symm.trans hconn₁)),
      fun hnone => h.absent (hget.symm.trans hnone)⟩

/-- Every step in one lifetime of the daemon keeps account of the connection. -/
theorem step (h : S.Logs T c log) {a : ControlAction} (ha : a.OneLifetime)
    (hstep : (controlSystem C T).step S a = some S') : S'.Logs T c (log ++ S.deeds c a) := by
  cases a with
  | act a =>
    obtain ⟨D', hD', rfl⟩ := step_act ha hstep
    by_cases hserve : ∃ r o, a = .serve r o
    · obtain ⟨r, o, rfl⟩ := hserve
      obtain ⟨stage, D₁, stage', hget, hserve, rfl⟩ := Daemon.step_serve hD'
      have hserves := Daemon.serves_of_serve hserve
      refine ⟨fun conn hconn => ?_, fun hnone => ?_⟩
      · have hdeeds : S.deeds c (.act (.serve r o)) = conn.performs S.daemon r o := by
          simp only [deeds]
          rw [show S.connections[c]? = some conn from hconn]
          rfl
        rw [hdeeds]
        show Accounted T (D₁.requests.set r stage') conn _
        rw [hserves.frame.1]
        exact (h.connected conn hconn).serve hget hserves
      · have hdeeds : S.deeds c (.act (.serve r o)) = [] := by
          simp only [deeds]
          rw [show S.connections[c]? = none from hnone]
          rfl
        rw [hdeeds, List.append_nil]
        exact h.absent hnone
    · have hnot : ∀ r o, a ≠ .serve r o := fun r o heq => hserve ⟨r, o, heq⟩
      have hdeeds : S.deeds c (.act a) = [] := by
        cases a with
        | serve r o => exact absurd rfl (hnot r o)
        | _ => rfl
      rw [hdeeds, List.append_nil]
      refine h.of_requests ((Daemon.step_requests hD' hnot ?_).imp id ?_)
      · rintro registry now ttl rfl
        exact ha
      · rintro ⟨op, -, happend⟩
        exact ⟨op, happend⟩
  | accept =>
    simp only [controlSystem, ControlPlane.step] at hstep
    split at hstep
    · cases hstep
      show Logs T c _ (log ++ [])
      rw [List.append_nil]
      refine ⟨fun conn hconn => ?_, fun hnone => ?_⟩
      · rcases getElem?_append_cases hconn with ⟨hnew, rfl⟩ | hold
        · rw [h.absent (by simp [hnew])]
          exact Accounted.accepted T _
        · exact h.connected conn hold
      · rw [List.getElem?_eq_none_iff, List.length_append] at hnone
        exact h.absent (List.getElem?_eq_none_iff.mpr (Nat.le_of_succ_le hnone))
    · cases hstep
  | send c' bytes =>
    obtain ⟨conn, hconn, hended, rfl⟩ := step_send hstep
    refine h.of_set hconn (fun hc => if_neg hc) (fun _ => id) fun hc hacc => ?_
    have hdeeds : S.deeds c (.send c' bytes) = [.sent bytes] := if_pos hc
    rw [hdeeds]
    exact hacc.send hended bytes
  | finish c' =>
    obtain ⟨conn, hconn, rfl⟩ := step_finish hstep
    refine h.of_set hconn (fun _ => rfl) (fun _ => id) fun _ hacc => ?_
    show Accounted T _ _ (log ++ [])
    rw [List.append_nil]
    exact hacc.finish
  | serve c' o =>
    obtain ⟨conn, D', conn', hconn, hserve, rfl⟩ := step_serve hstep
    have hattends := attends_of_serveConnection hserve
    refine h.of_set hconn (fun hc => if_neg hc) (fun conn₁ hacc => hacc.mono fun r stage hr => ?_)
      fun hc hacc => ?_
    · rcases hattends.requests_cases with hsame | ⟨op, happend⟩
      · rwa [hsame]
      · rw [happend]
        exact getElem?_append_of_some hr
    · have hdeeds : S.deeds c (.serve c' o) = conn.deeds S.daemon o := by
        rw [deeds, if_pos hc, ← hc, hconn]
        rfl
      rw [hdeeds]
      exact hacc.attends hattends

end Logs

end ControlPlane

/-! ## What a connection has come to -/

/-- What is done for a line before its response writes nothing. -/
theorem Answer.bytesWritten_eq_nil {piece : List UInt8} {response : Response}
    (h : Answer T piece deeds response) : serverStream deeds = [] := by
  cases h <;> rfl

/-- The client only receives what the task writes. -/
theorem serverStream_transcript (log : List ConnectionDeed) :
    serverStream (transcript log) = serverStream log := by
  induction log with
  | nil => rfl
  | cons deed log ih =>
    cases deed with
    | sent bytes => exact ih
    | _ =>
      simp only [serverStream, transcript, ConnectionDeed.isSent, List.filter_cons, Bool.not_false,
        if_true, List.flatMap_cons, List.append_right_inj] at ih ⊢
      exact ih

/-- The client receives the responses line by line. -/
theorem chop_serverStream (hanswers : ∀ x ∈ exchanges, Answer T x.piece x.executed x.response)
    (hhistory : transcript log = exchanges.flatMap Exchange.deeds) :
    chop newline (serverStream log) = exchanges.map fun x => x.response.frame := by
  have hserver : serverStream log = (exchanges.map Exchange.response).flatMap Response.frame := by
    rw [← serverStream_transcript, hhistory, serverStream, List.flatMap_assoc, List.flatMap_map]
    refine List.flatMap_congr fun x hx => ?_
    have hnone := (hanswers x hx).bytesWritten_eq_nil
    rw [serverStream] at hnone
    rw [Exchange.deeds, List.flatMap_append, hnone]
    simp [ConnectionDeed.bytesWritten]
  rw [hserver, Response.chop_frames, List.map_map]
  rfl

/-- When the lines that are read are answered, the connection is framed so far. -/
theorem Serving.framed (h : Serving T requests conn log consumed exchanges none []) :
    Framed T log consumed exchanges := by
  have hhistory : transcript log = exchanges.flatMap Exchange.deeds := by
    rw [h.history, List.append_nil]
  refine ⟨?_, h.answers, hhistory, chop_serverStream h.answers hhistory,
    fun x _ => x.response.jsonText_text⟩
  rw [h.lines]
  simp

/-- What is done for a line is not a failed access. -/
theorem Answer.failed_notMem {piece : List UInt8} {response : Response}
    (h : Answer T piece deeds response) : .failed ∉ deeds := by
  cases h <;> simp

/-- No access of the task of a framed connection has failed. -/
theorem Framed.failed_notMem {stream : List UInt8} (h : Framed T log stream exchanges) :
    .failed ∉ log := by
  intro hmem
  have hfailed : .failed ∈ transcript log := List.mem_filter.mpr ⟨hmem, rfl⟩
  rw [h.history] at hfailed
  obtain ⟨x, hx, hdeed⟩ := List.mem_flatMap.mp hfailed
  rcases List.mem_append.mp hdeed with hexecuted | hwrote
  · exact (h.answers x hx).failed_notMem hexecuted
  · simp at hwrote

namespace Undecoded

variable {ended : Bool} {piece : List UInt8} {exchanges' : List Exchange}

/-- The line that is not UTF-8 is a line of the stream. -/
theorem chop_clientStream (h : Undecoded T ended log consumed piece rest exchanges) :
    chop newline (clientStream log) =
      chop newline consumed ++ piece :: chop newline rest := by
  rw [h.stream, chop_append h.front, List.append_right_inj]
  rcases h.back with hline | ⟨-, hrest⟩
  · rw [chop_append hline, h.single]
    rfl
  · rw [hrest, List.append_nil, h.single]
    rfl

theorem mem (h : Undecoded T ended log consumed piece rest exchanges) :
    piece ∈ chop newline (clientStream log) := by
  rw [h.chop_clientStream]
  exact List.mem_append_right _ List.mem_cons_self

/-- There is no response to the line that is not UTF-8. -/
theorem not_framed (h : Undecoded T ended log consumed piece rest exchanges) :
    ¬Framed T log (clientStream log) exchanges' := by
  intro hframed
  have hlines : requestLines (clientStream log) =
      requestLines consumed ++ piece :: requestLines rest := by
    simp only [requestLines, h.chop_clientStream, List.filter_append]
    rw [List.filter_cons_of_pos (by simp [h.undecodable])]
  have hlength : exchanges'.length = exchanges.length := by
    have hreceived := hframed.received
    rw [chop_serverStream h.answers h.history] at hreceived
    simpa using (congrArg List.length hreceived).symm
  have hasked : exchanges'.length = exchanges.length + ((requestLines rest).length + 1) := by
    have hpieces := congrArg List.length hframed.lines
    rw [hlines, h.lines] at hpieces
    simpa using hpieces
  omega

end Undecoded

/-- A connection that has returned is framed if and only if all lines of the client are UTF-8 and no
access has failed. -/
theorem Accounted.framed_iff_of_returned (h : Accounted T requests conn log)
    {result : Except ConnectionError Unit} (hstage : conn.stage = .returned result) :
    (conn.ended = true ∧ conn.unread = [] ∧
        ∃ exchanges, Framed T log (clientStream log) exchanges) ↔
      (∀ piece ∈ chop newline (clientStream log), (decodeLine piece).isSome = true) ∧
        .failed ∉ log := by
  constructor
  · rintro ⟨-, hunread, exchanges', hframed⟩
    refine ⟨fun piece hpiece => ?_, hframed.failed_notMem⟩
    rcases h with ⟨consumed, exchanges, pending, tail, h⟩ | h
    · rw [h.stream, hunread, List.append_nil] at hpiece
      exact h.decodes piece hpiece
    · rcases h.reason with hfailed | ⟨consumed, piece, rest, exchanges, hundecoded⟩
      · exact absurd hfailed hframed.failed_notMem
      · exact absurd hframed hundecoded.not_framed
  · rintro ⟨hdecodes, hclean⟩
    rcases h with ⟨consumed, exchanges, pending, tail, h⟩ | h
    · obtain ⟨hended, hunread⟩ := h.closed result hstage
      have hpending := h.stage
      rw [hstage] at hpending
      cases hpending
      have hstream : clientStream log = consumed := by rw [h.stream, hunread, List.append_nil]
      exact ⟨hended, hunread, exchanges, hstream ▸ h.framed⟩
    · rcases h.reason with hfailed | ⟨consumed, piece, rest, exchanges, hundecoded⟩
      · exact absurd hfailed hclean
      · have hsome := hdecodes piece hundecoded.mem
        rw [hundecoded.undecodable] at hsome
        cases hsome

/-- A connection that reads is framed as far as it has read. -/
theorem Accounted.framed_of_reading (h : Accounted T requests conn log)
    (hstage : conn.stage = .reading) :
    ∃ consumed exchanges, clientStream log = consumed ++ conn.unread ∧
      chop newline (clientStream log) = chop newline consumed ++ chop newline conn.unread ∧
        Framed T log consumed exchanges := by
  rcases h with ⟨consumed, exchanges, pending, tail, h⟩ | h
  · have hpending := h.stage
    rw [hstage] at hpending
    cases hpending
    refine ⟨consumed, exchanges, h.stream, ?_, h.framed⟩
    rw [h.stream]
    rcases h.aligned with hfront | ⟨-, hunread⟩
    · exact chop_append hfront
    · rw [hunread, chop_nil, List.append_nil, List.append_nil]
  · obtain ⟨e, hreturned⟩ := h.stage
    rw [hstage] at hreturned
    cases hreturned

/-- The operation that the task waits for is one of the daemon. -/
theorem Accounted.exists_of_waiting {r : ℕ} (h : Accounted T requests conn log)
    (hstage : conn.stage = .waiting r) : ∃ stage, requests[r]? = some stage := by
  rcases h with ⟨consumed, exchanges, pending, tail, h⟩ | h
  · have hpending := h.stage
    rw [hstage] at hpending
    cases hpending with
    | called hread hop hr => exact ⟨_, hr⟩
    | performed hread hop hr hsettled => exact ⟨_, hr⟩
  · obtain ⟨e, hreturned⟩ := h.stage
    rw [hstage] at hreturned
    cases hreturned

/-- A connection is accounted for in every state of a lifetime of the daemon. -/
theorem ControlPlane.logs_of_run {S₀ : ControlPlane} (hnew : S₀.connections.length ≤ c)
    (hrun : ((controlSystem C T).logging (ControlPlane.deeds c)).Run (fun _ a => a.OneLifetime)
      (S₀, []) (S, log)) : S.Logs T c log := by
  have habsent : S₀.connections[c]? = none := List.getElem?_eq_none_iff.mpr hnew
  refine hrun.invariant (I := fun x => x.1.Logs T c x.2) ?_ ?_
  · refine ⟨fun conn hconn => ?_, fun _ => rfl⟩
    rw [habsent] at hconn
    cases hconn
  · intro x a y hx ha hstep
    obtain ⟨hstep', hlog⟩ := step_logging hstep
    rw [hlog]
    exact hx.step ha hstep'

/-! ## The task goes on -/

/-- The task of the connection `c` goes on without a failure, and so do the operations of the
daemon. -/
def ControlAction.Advances (c : ℕ) : ControlAction → Prop
  | .serve c' o => c' = c ∧ o.readFails = false ∧ o.writeFails = false
  | .act (.serve ..) => True
  | _ => False

theorem ControlAction.Advances.oneLifetime {a : ControlAction} (h : a.Advances c) :
    a.OneLifetime := by
  cases a with
  | act a =>
    cases a with
    | serve => trivial
    | _ => exact h.elim
  | _ => trivial

namespace ControlPlane

/-- A run of the task of the connection that leads to a state of the connection. -/
def Leads (C : DispatcherConfig) (T : ControlConfig) (c : ℕ) (S : ControlPlane)
    (conn' : Connection) : Prop :=
  ∃ S', (controlSystem C T).Run (fun _ a => a.Advances c) S S' ∧ S'.connections[c]? = some conn'

/-- One access of the task that does not fail. -/
theorem run_serve {conn conn' : Connection} (hconn : S.connections[c]? = some conn)
    (hserve : S.daemon.serveConnection T conn {} = some (D', conn')) :
    (controlSystem C T).Run (fun _ a => a.Advances c) S ⟨D', S.connections.set c conn'⟩ := by
  have hstep : (controlSystem C T).step S (.serve c {}) =
      some ⟨D', S.connections.set c conn'⟩ := by
    simp [controlSystem, step, hconn, hserve]
  have hadvances : (ControlAction.serve c {}).Advances c := ⟨rfl, rfl, rfl⟩
  exact .head hadvances hstep .refl

/-- One access of the task in front of a run. -/
theorem leads_of_serve {conn conn' conn₂ : Connection} (hconn : S.connections[c]? = some conn)
    (hserve : S.daemon.serveConnection T conn {} = some (D', conn'))
    (hrest : ∀ S', S'.daemon = D' → S'.connections[c]? = some conn' → Leads C T c S' conn₂) :
    Leads C T c S conn₂ := by
  obtain ⟨S', hrun, hconn₂⟩ := hrest ⟨D', S.connections.set c conn'⟩ rfl
    (getElem?_set_self_of_mem hconn)
  exact ⟨S', (run_serve hconn hserve).trans hrun, hconn₂⟩

/-- The response is written. -/
theorem leads_of_writing {response : Response} (hconn : S.connections[c]? = some conn)
    (hstage : conn.stage = .writing response) :
    Leads C T c S { conn with stage := .reading } := by
  refine leads_of_serve hconn (by simp only [Daemon.serveConnection, hstage]; rfl) ?_
  exact fun S' _ hconn' => ⟨S', .refl, hconn'⟩

/-- The status is collected agent by agent. -/
theorem leads_of_collecting {remaining : List AgentConfig} {agents : List AgentStatus}
    (hconn : S.connections[c]? = some conn) (hstage : conn.stage = .collecting remaining agents) :
    Leads C T c S { conn with stage := .reading } := by
  induction remaining generalizing S conn agents with
  | nil =>
    refine leads_of_serve hconn (by simp only [Daemon.serveConnection, hstage]; rfl)
      fun S' _ hconn' => ?_
    have hleads := leads_of_writing (C := C) (T := T) hconn' rfl
    exact hleads
  | cons config remaining ih =>
    refine leads_of_serve hconn (by simp only [Daemon.serveConnection, hstage]; rfl)
      fun S' _ hconn' => ?_
    have hleads := ih hconn' rfl
    exact hleads

/-- The operation that the task waits for returns. -/
theorem leads_of_waiting {r : ℕ} {stage : RequestStage} (hconn : S.connections[c]? = some conn)
    (hstage : conn.stage = .waiting r) (hr : S.daemon.requests[r]? = some stage) :
    Leads C T c S { conn with stage := .reading } := by
  obtain ⟨D', result, hrun, hrequests⟩ := Daemon.exists_returned (C := C) (o := {}) hr
  have hlift : (controlSystem C T).Run (fun _ a => a.Advances c) S { S with daemon := D' } :=
    hrun.map (fun D => { S with daemon := D }) fun x a y ha hstep => by
      subst ha
      refine .inr ⟨.act (.serve r {}), trivial, ?_⟩
      exact congrArg (Option.map _) hstep
  have hresult : D'.requests[r]? = some (.returned result) := by
    rw [hrequests]
    exact getElem?_set_self_of_mem hr
  obtain ⟨S', hrun', hconn'⟩ : Leads C T c { S with daemon := D' }
      { conn with stage := .reading } := by
    refine leads_of_serve hconn
      (by simp only [Daemon.serveConnection, hstage, hresult]; rfl) fun S' _ hconn' => ?_
    have hleads := leads_of_writing (C := C) (T := T) hconn' rfl
    exact hleads
  exact ⟨S', hlift.trans hrun', hconn'⟩

/-- A request is handled. -/
theorem leads_of_received {request : Request} (hconn : S.connections[c]? = some conn)
    (hstage : conn.stage = .received request) :
    Leads C T c S { conn with stage := .reading } := by
  refine leads_of_serve hconn (by simp only [Daemon.serveConnection, hstage]; rfl)
    fun S' hD hconn' => ?_
  cases request with
  | list =>
    have hleads := leads_of_writing (C := C) (T := T) hconn' rfl
    exact hleads
  | status =>
    have hleads := leads_of_collecting (C := C) (T := T) hconn' rfl
    exact hleads
  | register agent | update agent | unregister agentId | reload =>
    have hleads := leads_of_waiting (C := C) (T := T) hconn' rfl
      (by rw [hD]; exact List.getElem?_concat_length)
    exact hleads

/-- The line that is being served is answered. -/
theorem leads_reading (hconn : S.connections[c]? = some conn)
    (hopen : ∀ result, conn.stage ≠ .returned result)
    (hwait : ∀ r, conn.stage = .waiting r → ∃ stage, S.daemon.requests[r]? = some stage) :
    Leads C T c S { conn with stage := .reading } := by
  cases hstage : conn.stage with
  | reading =>
    rw [← hstage]
    exact ⟨S, .refl, hconn⟩
  | received request => exact leads_of_received hconn hstage
  | waiting r =>
    obtain ⟨stage, hr⟩ := hwait r hstage
    exact leads_of_waiting hconn hstage hr
  | collecting remaining agents => exact leads_of_collecting hconn hstage
  | writing response => exact leads_of_writing hconn hstage
  | returned result => exact absurd hstage (hopen result)

end ControlPlane

/-- No operation is called before the request is handled. -/
theorem ControlConfig.onLine_ne_waiting (T : ControlConfig) (piece : List UInt8) (r : ℕ) :
    T.onLine piece ≠ .waiting r := by
  rw [onLine]
  split
  · nofun
  · split
    · nofun
    · split <;> nofun

/-- The task has returned, or it waits for the client to send the rest of a line. -/
def Connection.AtRest (conn : Connection) : Prop :=
  (∃ result, conn.stage = .returned result) ∨
    conn.stage = .reading ∧ conn.ended = false ∧ newline ∉ conn.unread

/-- All lines that the client has sent are read. -/
theorem ControlPlane.exists_atRest_of_reading (hconn : S.connections[c]? = some conn)
    (hstage : conn.stage = .reading) : ∃ conn', Leads C T c S conn' ∧ conn'.AtRest := by
  induction hn : conn.unread.length using Nat.strong_induction_on generalizing S conn with
  | _ n ih =>
    cases hchop : chop newline conn.unread with
    | nil =>
      have hunread := chop_eq_nil.mp hchop
      cases hended : conn.ended with
      | false => exact ⟨conn, ⟨S, .refl, hconn⟩, .inr ⟨hstage, hended, by simp [hunread]⟩⟩
      | true =>
        have hserve : S.daemon.serveConnection T conn {} =
            some (S.daemon, { conn with stage := .returned (.ok ()) }) := by
          simp [Daemon.serveConnection, hstage, Connection.nextLine, hunread, hended]
        exact ⟨{ conn with stage := .returned (.ok ()) }, ⟨_, run_serve hconn hserve,
          getElem?_set_self_of_mem hconn⟩, .inl ⟨_, rfl⟩⟩
    | cons piece rest =>
      have hunread : conn.unread = piece ++ rest.flatten := by
        rw [← flatten_chop newline conn.unread, hchop, List.flatten_cons]
      have hmem : piece ∈ chop newline conn.unread := hchop ▸ List.mem_cons_self
      by_cases hline : piece.getLast? = some newline ∨ conn.ended = true
      · have hserve : S.daemon.serveConnection T conn {} =
            some (S.daemon, { conn with unread := rest.flatten, stage := T.onLine piece }) := by
          simp [Daemon.serveConnection, hstage, Connection.nextLine, hchop, hline]
        have hrun := run_serve (C := C) hconn hserve
        have hconn₁ := getElem?_set_self_of_mem
          (y := { conn with unread := rest.flatten, stage := T.onLine piece }) hconn
        by_cases hopen : ∃ result, T.onLine piece = .returned result
        · exact ⟨_, ⟨_, hrun, hconn₁⟩, .inl hopen⟩
        · -- the line is answered, and fewer bytes are left for the next one
          obtain ⟨S₂, hrun₂, hconn₂⟩ := leads_reading (C := C) (T := T)
            (S := ⟨S.daemon, S.connections.set c _⟩) hconn₁
            (fun result hresult => hopen ⟨result, hresult⟩)
            (fun r hr => absurd hr (T.onLine_ne_waiting piece r))
          have hless : rest.flatten.length < n := by
            have hpos := List.length_pos_of_ne_nil (chop_ne_nil hmem)
            rw [← hn, hunread, List.length_append]
            omega
          obtain ⟨conn₃, ⟨S₃, hrun₃, hconn₃⟩, hrest⟩ := ih _ hless hconn₂ rfl rfl
          exact ⟨conn₃, ⟨S₃, hrun.trans (hrun₂.trans hrun₃), hconn₃⟩, hrest⟩
      · have hrest : rest = [] := by
          by_contra hne
          exact hline (.inl (getLast?_of_chop_cons hchop hne))
        rw [hrest, List.flatten_nil, List.append_nil] at hunread
        refine ⟨conn, ⟨S, .refl, hconn⟩, .inr ⟨hstage, ?_, fun hnewline => hline (.inl ?_)⟩⟩
        · simpa using (not_or.mp hline).2
        · exact getLast?_of_mem_chop hmem (hunread ▸ hnewline)

/-- The task can always come to rest. -/
theorem ControlPlane.exists_atRest (hconn : S.connections[c]? = some conn)
    (hopen : ∀ result, conn.stage ≠ .returned result)
    (hwait : ∀ r, conn.stage = .waiting r → ∃ stage, S.daemon.requests[r]? = some stage) :
    ∃ conn', Leads C T c S conn' ∧ conn'.AtRest := by
  obtain ⟨S', hrun, hconn'⟩ := leads_reading (C := C) (T := T) hconn hopen hwait
  obtain ⟨conn₂, ⟨S₂, hrun₂, hconn₂⟩, hrest⟩ :=
    exists_atRest_of_reading (C := C) (T := T) hconn' rfl
  exact ⟨conn₂, ⟨S₂, hrun.trans hrun₂, hconn₂⟩, hrest⟩

/-- In one lifetime of the daemon, while the connection `c` reads, each line that it has read is
answered by one response, in order, and executed once if it is a request; and the task can always go
on until it needs more input.  When it has returned, the client has had a response to each line of
its whole input, and has ended the input, if and only if all lines were UTF-8 and no access
failed. -/
theorem framed_iff {S₀ : ControlPlane} (hnew : S₀.connections.length ≤ c)
    (hrun : ((controlSystem C T).logging (ControlPlane.deeds c)).Run (fun _ a => a.OneLifetime)
      (S₀, []) (S, log)) (hconn : S.connections[c]? = some conn) :
    (conn.stage = .reading → ∃ consumed exchanges, clientStream log = consumed ++ conn.unread ∧
      chop newline (clientStream log) = chop newline consumed ++ chop newline conn.unread ∧
        Framed T log consumed exchanges) ∧
    (∀ result, conn.stage = .returned result →
      ((conn.ended = true ∧ conn.unread = [] ∧
          ∃ exchanges, Framed T log (clientStream log) exchanges) ↔
        (∀ piece ∈ chop newline (clientStream log), (decodeLine piece).isSome = true) ∧
          .failed ∉ log)) ∧
    ((∀ result, conn.stage ≠ .returned result) →
      ∃ S' log' conn', ((controlSystem C T).logging (ControlPlane.deeds c)).Run
          (fun _ a => a.Advances c) (S, log) (S', log') ∧
        S'.connections[c]? = some conn' ∧ conn'.AtRest) := by
  have haccounted := (ControlPlane.logs_of_run hnew hrun).connected conn hconn
  refine ⟨haccounted.framed_of_reading, fun result => haccounted.framed_iff_of_returned,
    fun hopen => ?_⟩
  obtain ⟨conn', ⟨S', hrun', hconn'⟩, hrest⟩ := ControlPlane.exists_atRest (C := C) (T := T) hconn
    hopen fun r => haccounted.exists_of_waiting
  obtain ⟨log', hlogged⟩ := hrun'.exists_logging (ControlPlane.deeds c) log
  exact ⟨S', log', conn', hlogged, hconn', hrest⟩

def Connection.hasReturned (conn : Connection) : Bool :=
  match conn.stage with
  | .returned _ => true
  | _ => false

theorem Connection.exists_of_hasReturned (h : conn.hasReturned = true) :
    ∃ result, conn.stage = .returned result := by
  unfold hasReturned at h
  split at h
  · rename_i result hstage
    exact ⟨result, hstage⟩
  · cases h

theorem failed_notMem_of_all (h : log.all (fun deed => !deed.isFailed) = true) : .failed ∉ log := by
  intro hmem
  have hnot := List.all_eq_true.mp h _ hmem
  cases hnot

namespace Sample

/-- A parser for a listing and a reload without white space. -/
def controlConfig : ControlConfig where
  fromStr line :=
    if line = "\x7b\"op\":\"list\"\x7d" then .ok .list
    else if line = "\x7b\"op\":\"reload\"\x7d" then .ok .reload
    else .error "expected value at line 1 column 1"
  debugPath p := String.ofList (writeString ((String.fromUTF8? ⟨p.bytes.toArray⟩).getD ""))
  displayFile file := file
  tomlWrite _ := "unsupported value"
  tomlRead _ := "invalid value"
  ioReason file := "cannot write " ++ file

/-- The daemon starts without agents, and a client connects. -/
def connect : List ControlAction := [.act (.serve 0 {}), .accept]

/-- The task of the connection makes `n` accesses, none of which fails. -/
def attends (n : ℕ) : List ControlAction := List.replicate n (.serve 0 {})

/-- A reload, a blank line, a line that is not JSON, and a listing without an end of line. -/
def fourLines : List UInt8 :=
  encode "\x7b\"op\":\"reload\"\x7d\n\r\nhello\n\x7b\"op\":\"list\"\x7d".toList

/-- The lines are sent and answered. -/
def talk : List ControlAction :=
  connect ++ [.send 0 fourLines, .finish 0] ++ attends 2 ++
    List.replicate 3 (.act (.serve 1 { load := .ok .empty })) ++ attends 9

/-- A line that is not UTF-8, and a listing. -/
def undecodableLine : List UInt8 :=
  [0xff, newline] ++ encode "\x7b\"op\":\"list\"\x7d\n".toList

end Sample

theorem framed_iff_talk :
    ∃ S log conn, ((controlSystem Sample.dispatcherConfig Sample.controlConfig).logging
        (ControlPlane.deeds 0)).Run (fun _ a => a.OneLifetime)
        (⟨.start .empty .empty fun _ => none, []⟩, []) (S, log) ∧
      S.connections[0]? = some conn ∧ conn.ended = true ∧ conn.unread = [] ∧
      ∃ exchanges, Framed Sample.controlConfig log Sample.fourLines exchanges := by
  obtain ⟨⟨S, log⟩, hrun, hend⟩ := exists_run_of_exec
    ((controlSystem Sample.dispatcherConfig Sample.controlConfig).logging (ControlPlane.deeds 0))
    (fun _ a => a.OneLifetime) (⟨.start .empty .empty fun _ => none, []⟩, []) Sample.talk
    (fun x => x.1.connections[0]?.any Connection.hasReturned &&
      x.2.all (fun deed => !deed.isFailed) && clientStream x.2 == Sample.fourLines)
    (by decide +kernel)
  simp only [Bool.and_eq_true, beq_iff_eq] at hend
  obtain ⟨⟨hreturned, hclean⟩, hstream⟩ := hend
  obtain ⟨conn, hconn, hreturned⟩ := (Option.any_eq_true _ _).mp hreturned
  obtain ⟨result, hresult⟩ := Connection.exists_of_hasReturned hreturned
  have hdecodes : ∀ piece ∈ chop newline Sample.fourLines, (decodeLine piece).isSome = true := by
    decide +kernel
  have hframed := (framed_iff (Nat.zero_le 0) hrun hconn).2.1 result hresult
  rw [hstream] at hframed
  exact ⟨S, log, conn, hrun, hconn, hframed.mpr ⟨hdecodes, failed_notMem_of_all hclean⟩⟩

/-- A line that is not UTF-8 closes the connection, with a request behind it that is not read. -/
theorem undecodable_line_disconnects :
    ¬∀ (C : DispatcherConfig) (T : ControlConfig) (c : ℕ) (S₀ S : ControlPlane)
        (log : List ConnectionDeed) (conn : Connection) (result : Except ConnectionError Unit),
      S₀.connections.length ≤ c →
      ((controlSystem C T).logging (ControlPlane.deeds c)).Run (fun _ a => a.OneLifetime)
        (S₀, []) (S, log) →
      S.connections[c]? = some conn → conn.stage = .returned result → .failed ∉ log →
      conn.ended = true ∧ conn.unread = [] ∧
        ∃ exchanges, Framed T log (clientStream log) exchanges := by
  intro h
  obtain ⟨⟨S, log⟩, hrun, hend⟩ := exists_run_of_exec
    ((controlSystem Sample.dispatcherConfig Sample.controlConfig).logging (ControlPlane.deeds 0))
    (fun _ a => a.OneLifetime) (⟨.start .empty .empty fun _ => none, []⟩, [])
    (Sample.connect ++ [.send 0 Sample.undecodableLine] ++ Sample.attends 1)
    (fun x => x.1.connections[0]?.any (fun conn => conn.hasReturned && !conn.ended) &&
      x.2.all (fun deed => !deed.isFailed))
    (by decide +kernel)
  obtain ⟨hreturned, hclean⟩ := (Bool.and_eq_true _ _).mp hend
  obtain ⟨conn, hconn, hreturned⟩ := (Option.any_eq_true _ _).mp hreturned
  rw [Bool.and_eq_true] at hreturned
  obtain ⟨result, hresult⟩ := Connection.exists_of_hasReturned hreturned.1
  obtain ⟨hended, -⟩ := h _ _ 0 ⟨.start .empty .empty fun _ => none, []⟩ S log conn result
    (Nat.zero_le 0) hrun hconn hresult (failed_notMem_of_all hclean)
  simp [hended] at hreturned

end Agentd
