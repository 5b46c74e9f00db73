import Agentd.Foundation.Search

/-!
# What is logged about the connection

The URL of the relay may carry credentials, as the part of its authority before an `@` (the
userinfo).  `connect` and the callback for connection events log the URL through `redactUrl`, and
the daemon logs the error that `connect` returns.

Two URLs that differ in the userinfo only give the same lines as long as every line that shows the
URL shows it redacted, and the redaction finds the userinfo.  The error of a failed connection
quotes the URL as it is.  And the redaction looks for the authority behind the first `://` of the
URL, wherever that is.
-/

namespace Agentd

open Search

/-! ## Redaction -/

/-- The marker behind the scheme of a URL. -/
def schemeMarker : List Char := [':', '/', '/']

/-- The part of a text before the first slash. -/
def authorityOf (text : List Char) : List Char :=
  match find ['/'] text with
  | some i => text.take i
  | none => text

/-- Where the authority of a URL is taken to start. -/
def authorityStart (url : List Char) : ℕ :=
  match find schemeMarker url with
  | some schemeEnd => schemeEnd + 3
  | none => 0

/-- `redact_url`: what stands before the last `@` of the authority is masked. -/
def redactUrl (url : List Char) : List Char :=
  match rfind '@' (authorityOf (url.drop (authorityStart url))) with
  | none => url
  | some i => url.take (authorityStart url) ++ "***".toList ++ url.drop (authorityStart url + i)

/-- The URL with the given scheme, if it has one, userinfo and remaining part. -/
def urlWith (scheme : Option (List Char)) (userinfo rest : List Char) : List Char :=
  scheme.elim [] (· ++ schemeMarker) ++ (userinfo ++ '@' :: rest)

variable {scheme : Option (List Char)} {userinfo userinfo' rest start : List Char}

/-- The authority of a text that starts without a slash starts with that. -/
theorem authorityOf_append (h : '/' ∉ start) :
    authorityOf (start ++ rest) = start ++ authorityOf rest := by
  simp only [authorityOf, find_append_of_notMem h]
  cases find ['/'] rest with
  | none => rfl
  | some i => simp [List.take_append]

/-- The `@` behind the userinfo belongs to the authority. -/
theorem mem_authorityOf (rest : List Char) : '@' ∈ authorityOf ('@' :: rest) := by
  have hne : '/' ≠ '@' := by decide
  simp only [authorityOf, find_cons_of_ne hne]
  cases find ['/'] rest with
  | none => simp
  | some i => simp

/-- The authority starts behind the marker when there is a scheme. -/
theorem authorityStart_scheme {scheme : List Char} (h : ':' ∉ scheme) (text : List Char) :
    authorityStart (scheme ++ schemeMarker ++ text) = (scheme ++ schemeMarker).length := by
  have hfind : find schemeMarker (scheme ++ (schemeMarker ++ text)) = some scheme.length := by
    rw [schemeMarker, find_append_of_notMem h, ← schemeMarker, find_append_self, Option.map_some,
      Nat.zero_add]
  rw [authorityStart, List.append_assoc, hfind]
  simp [schemeMarker]

/-- Without a scheme the marker is looked for behind the userinfo. -/
theorem find_marker_userinfo (h : '/' ∉ userinfo) :
    find schemeMarker (userinfo ++ '@' :: rest) =
      (find schemeMarker rest).map (userinfo.length + 1 + ·) := by
  have hne : ':' ≠ '@' := by decide
  have hhead : ('@' :: rest).head? ≠ some '/' := by simp
  rw [schemeMarker, find_append_of_second_notMem h hhead, find_cons_of_ne hne, Option.map_map]
  congr 1
  funext i
  simp only [Function.comp]
  omega

/-- The userinfo is masked when the authority is taken to start with it. -/
theorem redactUrl_masked (start rest : List Char)
    (hstart : ∀ userinfo, '/' ∉ userinfo →
      authorityStart (start ++ (userinfo ++ '@' :: rest)) = start.length) :
    ∃ masked, ∀ userinfo, '/' ∉ userinfo →
      redactUrl (start ++ (userinfo ++ '@' :: rest)) = masked := by
  obtain ⟨i, hi⟩ := exists_rfind (mem_authorityOf rest)
  refine ⟨start ++ "***".toList ++ ('@' :: rest).drop i, fun userinfo h => ?_⟩
  have hlast : rfind '@' (authorityOf (userinfo ++ '@' :: rest)) = some (userinfo.length + i) := by
    rw [authorityOf_append h]
    exact rfind_append hi
  have hdrop : (start ++ (userinfo ++ '@' :: rest)).drop (start.length + (userinfo.length + i)) =
      ('@' :: rest).drop i := by
    rw [List.drop_length_add_append, List.drop_length_add_append]
  simp only [redactUrl, hstart userinfo h, List.drop_left, hlast, List.take_left, hdrop]

/-- The userinfo stays when the authority is taken to start behind it. -/
theorem redactUrl_shown {e : ℕ} (hmarker : find schemeMarker rest = some e) :
    ∃ shown, ∀ userinfo, '/' ∉ userinfo →
      redactUrl (userinfo ++ '@' :: rest) = userinfo ++ shown := by
  obtain ⟨k, hstart⟩ : ∃ k, ∀ userinfo, '/' ∉ userinfo →
      authorityStart (userinfo ++ '@' :: rest) = userinfo.length + k := by
    refine ⟨1 + e + 3, fun userinfo h => ?_⟩
    rw [authorityStart, find_marker_userinfo h, hmarker, Option.map_some]
    simp only
    omega
  cases hlast : rfind '@' (authorityOf (('@' :: rest).drop k)) with
  | none =>
    refine ⟨'@' :: rest, fun userinfo h => ?_⟩
    simp only [redactUrl, hstart userinfo h, List.drop_length_add_append, hlast]
  | some i =>
    refine ⟨('@' :: rest).take k ++ "***".toList ++ ('@' :: rest).drop (k + i),
      fun userinfo h => ?_⟩
    simp only [redactUrl, hstart userinfo h, List.drop_length_add_append, hlast,
      List.take_length_add_append, Nat.add_assoc, List.append_assoc]

/-- Two URLs that differ in the userinfo only are shown alike exactly when they have a scheme or
no marker behind the userinfo. -/
theorem redactUrl_eq_iff (hscheme : ∀ s ∈ scheme, ':' ∉ s) (h : '/' ∉ userinfo)
    (h' : '/' ∉ userinfo') :
    redactUrl (urlWith scheme userinfo rest) = redactUrl (urlWith scheme userinfo' rest) ↔
      userinfo = userinfo' ∨ scheme.isSome = true ∨ ¬schemeMarker <:+: rest := by
  cases scheme with
  | some s =>
    obtain ⟨masked, hmasked⟩ := redactUrl_masked (s ++ schemeMarker) rest
      fun userinfo _ => authorityStart_scheme (hscheme s rfl) _
    exact iff_of_true ((hmasked _ h).trans (hmasked _ h').symm) (.inr (.inl rfl))
  | none =>
    cases hmarker : find schemeMarker rest with
    | none =>
      have hnone := find_eq_none_iff.mp hmarker
      obtain ⟨masked, hmasked⟩ := redactUrl_masked [] rest fun userinfo h => by
        rw [authorityStart, List.nil_append, find_marker_userinfo h, hmarker]
        rfl
      exact iff_of_true ((hmasked _ h).trans (hmasked _ h').symm) (.inr (.inr hnone))
    | some e =>
      have hbehind : schemeMarker <:+: rest := by
        by_contra hnot
        rw [find_eq_none_iff.mpr hnot] at hmarker
        cases hmarker
      obtain ⟨shown, hshown⟩ := redactUrl_shown hmarker
      have heq : redactUrl (urlWith none userinfo rest) = userinfo ++ shown := hshown _ h
      have heq' : redactUrl (urlWith none userinfo' rest) = userinfo' ++ shown := hshown _ h'
      rw [heq, heq', List.append_left_inj]
      simp [hbehind]

example : redactUrl "nats://u:p@h:1/x@y".toList = "nats://***@h:1/x@y".toList := by decide

/-! ## The connection -/

/-- The fields of the daemon's configuration that the connection depends on; the path of the
credentials file is as it is displayed. -/
structure DaemonConfig where
  natsUrl : String
  natsCreds : Option String

/-- A line of the log: level, message and fields. -/
structure LogLine where
  level : String
  message : String
  fields : List (String × String) := []
  deriving DecidableEq

/-- The errors of the connection. -/
inductive AgentdError where
  | config (reason : String)
  | relay (reason : String)

/-- The text of an error. -/
def AgentdError.display : AgentdError → String
  | .config reason => "configuration error: " ++ reason
  | .relay reason => "relay error: " ++ reason

/-- A connection event of the client. -/
inductive ClientEvent where
  | connected
  | disconnected
  | lameDuckMode
  /-- Any other event, with its debug text. -/
  | other (text : String)

/-- What the environment decides about a connection attempt. -/
structure ConnectOutcome where
  /-- The result of reading the credentials file. -/
  creds : Except String Unit
  /-- The credentials file is accessible for others. -/
  looseCreds : Bool
  /-- The events the callback is called with, in their order. -/
  events : List ClientEvent
  /-- The result of the client's `connect`. -/
  client : Except String Unit

/-- `warn_if_loose_creds`. -/
def warnIfLooseCreds (creds : String) (loose : Bool) : List LogLine :=
  if loose then
    [{ level := "WARN"
       message := "credentials file is group/world accessible; whitepaper §3.4 requires 0600"
       fields := [("creds", creds)] }]
  else []

/-- The URL as it is shown in a field. -/
def shownUrl (url : String) : String := String.ofList (redactUrl url.toList)

/-- The event callback. -/
def eventCallback (url : String) : ClientEvent → LogLine
  | .connected =>
    { level := "INFO", message := "nats connected", fields := [("nats_url", shownUrl url)] }
  | .disconnected => { level := "WARN", message := "nats disconnected" }
  | .lameDuckMode => { level := "WARN", message := "relay entered lame duck mode" }
  | .other text => { level := "DEBUG", message := "nats connection event: " ++ text }

/-- The part of `connect` behind the credentials file, which may have given a warning: the lines
logged, by the callback too, and the result. -/
def connectWith (warnings : List LogLine) (url : String) (o : ConnectOutcome) :
    List LogLine × Except AgentdError Unit :=
  (warnings ++
    { level := "INFO"
      message := "connecting to relay (retrying until reachable)"
      fields := [("nats_url", shownUrl url)] } ::
    o.events.map (eventCallback url),
    match o.client with
    | .ok () => .ok ()
    | .error e => .error (.relay ("cannot connect to " ++ url ++ ": " ++ e)))

/-- `connect`. -/
def connect (config : DaemonConfig) (o : ConnectOutcome) :
    List LogLine × Except AgentdError Unit :=
  match config.natsCreds with
  | some creds =>
    match o.creds with
    | .error e => ([], .error (.config ("cannot read credentials " ++ creds ++ ": " ++ e)))
    | .ok () => connectWith (warnIfLooseCreds creds o.looseCreds) config.natsUrl o
  | none => connectWith [] config.natsUrl o

/-- What `run` logs about the result of `connect`. -/
def resultLog : Except AgentdError Unit → List LogLine
  | .ok () => []
  | .error e => [{ level := "ERROR", message := "relay connection failed: " ++ e.display }]

/-- The lines logged when the daemon connects. -/
def connectLog (config : DaemonConfig) (o : ConnectOutcome) : List LogLine :=
  (connect config o).1 ++ resultLog (connect config o).2

variable {warnings : List LogLine} {url url' : String} {o : ConnectOutcome}

/-- The callback shows the URL through its redaction only. -/
theorem eventCallback_eq (h : shownUrl url = shownUrl url') :
    eventCallback url = eventCallback url' := by
  funext event
  cases event <;> simp [eventCallback, h]

/-- The error of a failed connection shows the URL. -/
theorem display_connect_inj {e : String} :
    (AgentdError.relay ("cannot connect to " ++ url ++ ": " ++ e)).display =
      (AgentdError.relay ("cannot connect to " ++ url' ++ ": " ++ e)).display ↔ url = url' := by
  show "relay error: " ++ ("cannot connect to " ++ url ++ ": " ++ e) =
    "relay error: " ++ ("cannot connect to " ++ url' ++ ": " ++ e) ↔ url = url'
  rw [String.append_right_inj, String.append_left_inj, String.append_left_inj,
    String.append_right_inj]

/-- What is logged about a failed connection tells the errors apart. -/
theorem resultLog_error_inj {e e' : AgentdError} :
    resultLog (.error e) = resultLog (.error e') ↔ e.display = e'.display := by
  show [LogLine.mk "ERROR" ("relay connection failed: " ++ e.display) []] =
    [LogLine.mk "ERROR" ("relay connection failed: " ++ e'.display) []] ↔ e.display = e'.display
  rw [List.cons.injEq, LogLine.mk.injEq, String.append_right_inj]
  simp only [true_and, and_true]

/-- An attempt is logged alike for two URLs exactly when both are shown alike and, unless the client
connects, are the same. -/
theorem connectWith_log_eq_iff :
    (connectWith warnings url o).1 ++ resultLog (connectWith warnings url o).2 =
        (connectWith warnings url' o).1 ++ resultLog (connectWith warnings url' o).2 ↔
      shownUrl url = shownUrl url' ∧ (o.client = .ok () ∨ url = url') := by
  simp only [connectWith, List.append_assoc, List.cons_append, List.append_right_inj,
    List.cons.injEq, LogLine.mk.injEq, true_and, Prod.mk.injEq, and_true]
  refine and_congr_right fun hshown => ?_
  rw [eventCallback_eq hshown, List.append_right_inj]
  cases o.client with
  | ok => exact iff_of_true rfl (.inl rfl)
  | error e =>
    rw [resultLog_error_inj, display_connect_inj]
    exact (or_iff_right (by simp)).symm

theorem connectLog_none (url : String) (o : ConnectOutcome) :
    connectLog ⟨url, none⟩ o =
      (connectWith [] url o).1 ++ resultLog (connectWith [] url o).2 := rfl

theorem connectLog_readable (url creds : String) (loose : Bool) (events : List ClientEvent)
    (client : Except String Unit) :
    connectLog ⟨url, some creds⟩ ⟨.ok (), loose, events, client⟩ =
      (connectWith (warnIfLooseCreds creds loose) url ⟨.ok (), loose, events, client⟩).1 ++
        resultLog
          (connectWith (warnIfLooseCreds creds loose) url ⟨.ok (), loose, events, client⟩).2 := rfl

/-- When the credentials file cannot be read, the URL is not logged at all. -/
theorem connectLog_unreadable (url creds e : String) (loose : Bool) (events : List ClientEvent)
    (client : Except String Unit) :
    connectLog ⟨url, some creds⟩ ⟨.error e, loose, events, client⟩ =
      resultLog (.error (.config ("cannot read credentials " ++ creds ++ ": " ++ e))) := rfl

/-- For two configurations that differ in the userinfo of the URL only, the same lines are logged
exactly when the credentials file cannot be read, or the client connects and the URL has a scheme or
no scheme marker behind the userinfo. -/
theorem connectLog_eq_iff (config : DaemonConfig) (o : ConnectOutcome)
    (hscheme : ∀ s ∈ scheme, ':' ∉ s) (h : '/' ∉ userinfo) (h' : '/' ∉ userinfo') :
    connectLog { config with natsUrl := String.ofList (urlWith scheme userinfo rest) } o =
        connectLog { config with natsUrl := String.ofList (urlWith scheme userinfo' rest) } o ↔
      userinfo = userinfo' ∨ (config.natsCreds.isSome = true ∧ ∃ e, o.creds = .error e) ∨
        ((scheme.isSome = true ∨ ¬schemeMarker <:+: rest) ∧ o.client = .ok ()) := by
  have hurl : String.ofList (urlWith scheme userinfo rest) =
      String.ofList (urlWith scheme userinfo' rest) ↔ userinfo = userinfo' := by
    rw [String.ofList_inj]
    simp [urlWith]
  have hshown : shownUrl (String.ofList (urlWith scheme userinfo rest)) =
      shownUrl (String.ofList (urlWith scheme userinfo' rest)) ↔
        userinfo = userinfo' ∨ scheme.isSome = true ∨ ¬schemeMarker <:+: rest := by
    rw [shownUrl, shownUrl, String.ofList_inj, String.toList_ofList, String.toList_ofList]
    exact redactUrl_eq_iff hscheme h h'
  have hattempt : ∀ warnings,
      (connectWith warnings (String.ofList (urlWith scheme userinfo rest)) o).1 ++
          resultLog (connectWith warnings (String.ofList (urlWith scheme userinfo rest)) o).2 =
        (connectWith warnings (String.ofList (urlWith scheme userinfo' rest)) o).1 ++
          resultLog (connectWith warnings (String.ofList (urlWith scheme userinfo' rest)) o).2 ↔
      userinfo = userinfo' ∨
        ((scheme.isSome = true ∨ ¬schemeMarker <:+: rest) ∧ o.client = .ok ()) := by
    intro warnings
    rw [connectWith_log_eq_iff, hurl, hshown, or_comm (b := userinfo = userinfo'), ← or_and_left]
  obtain ⟨natsUrl, natsCreds⟩ := config
  obtain ⟨read, loose, events, client⟩ := o
  cases natsCreds with
  | none =>
    dsimp only
    rw [connectLog_none, connectLog_none, hattempt]
    simp only [Option.isSome_none, Bool.false_eq_true, false_and, false_or]
  | some creds =>
    cases read with
    | error e =>
      dsimp only
      rw [connectLog_unreadable, connectLog_unreadable]
      exact iff_of_true rfl (.inr (.inl ⟨rfl, e, rfl⟩))
    | ok =>
      dsimp only
      rw [connectLog_readable, connectLog_readable, hattempt]
      simp only [reduceCtorEq, exists_false, and_false, false_or]

namespace Sample

/-- The client connects, loses the connection and connects again. -/
def reconnecting : ConnectOutcome where
  creds := .ok ()
  looseCreds := true
  events := [.connected, .disconnected, .connected, .other "client error"]
  client := .ok ()

/-- The client rejects the URL. -/
def rejected : ConnectOutcome where
  creds := .ok ()
  looseCreds := false
  events := []
  client := .error "invalid port number"

end Sample

theorem connectLog_eq_iff_reconnecting :
    connectLog { natsUrl := String.ofList (urlWith (some "nats".toList) "u:p".toList "h".toList)
                 natsCreds := some "/c" } Sample.reconnecting =
      connectLog { natsUrl := String.ofList (urlWith (some "nats".toList) "v".toList "h".toList)
                   natsCreds := some "/c" } Sample.reconnecting :=
  (connectLog_eq_iff ⟨"", some "/c"⟩ Sample.reconnecting (by decide) (by decide) (by decide)).mpr
    (.inr (.inr ⟨.inl rfl, rfl⟩))

/-- The error of a URL that is rejected shows the userinfo. -/
theorem rejected_url_logged :
    ¬∀ (config : DaemonConfig) (o : ConnectOutcome) (scheme : Option (List Char))
        (userinfo userinfo' rest : List Char), (∀ s ∈ scheme, ':' ∉ s) → '/' ∉ userinfo →
      '/' ∉ userinfo' →
      connectLog { config with natsUrl := String.ofList (urlWith scheme userinfo rest) } o =
        connectLog { config with natsUrl := String.ofList (urlWith scheme userinfo' rest) } o := by
  intro h
  have hsame := h ⟨"", none⟩ Sample.rejected (some "nats".toList) "u:p".toList "v:q".toList
    "h:x".toList (by decide) (by decide) (by decide)
  dsimp only at hsame
  rw [connectLog_none, connectLog_none, connectWith_log_eq_iff, String.ofList_inj] at hsame
  rcases hsame.2 with hok | hurl
  · cases hok
  · exact absurd hurl (by decide)

end Agentd
