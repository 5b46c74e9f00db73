import Agentd.Daemon.Model
import Agentd.Registry.Persistence
import Agentd.Schema

/-!
# The grammar of ids and the names derived from them

An id is what the documentation says: one to sixteen tokens joined by underscores
(`IsAgentId`).  The subject, the consumer name and the configuration file name of an agent put a
prefix and a suffix around it, so taking them off and parsing what is left gives the id back
(`IsPartialInv`), and no other name does.

The characters of an id are few, which keeps the namespaces apart: an id is one token of a subject,
and its file is never taken for a temporary file nor the other way round.
-/

namespace Agentd

open Function

variable {input : List Char} {c : Char} {id : AgentId}

/-! ## The grammar -/

/-- One to sixteen tokens `[a-z0-9][a-z0-9-]{0,62}` joined by single underscores. -/
def IsAgentId (input : List Char) : Prop :=
  ∃ tokens : List (List Char), 1 ≤ tokens.length ∧ tokens.length ≤ 16 ∧
    (∀ token ∈ tokens, token ∈ tokenPattern.matches') ∧ input = ['_'].intercalate tokens

/-- No token contains an underscore. -/
theorem underscore_notMem_of_tokenPattern {token : List Char}
    (h : token ∈ tokenPattern.matches') : '_' ∉ token := by
  intro hmem
  have hchar := AgentId.isTokenChar_of_validateToken (validateToken_iff.mpr h) hmem
  exact absurd hchar (by decide)

/-- The checks of the parser accept exactly the grammar. -/
theorem AgentId.check_iff_isAgentId : check input = .ok () ↔ IsAgentId input := by
  constructor
  · intro h
    refine ⟨input.splitOn '_', ?_, (check_eq_ok_iff.mp h).2, ?_, ?_⟩
    · exact List.length_pos_iff.mpr (List.splitOn_ne_nil '_' input)
    · intro token htoken
      exact validateToken_iff.mp (validateToken_of_check h htoken)
    · exact (List.intercalate_splitOn '_').symm
  · rintro ⟨tokens, hpos, hlen, htokens, rfl⟩
    have hsplit : (['_'].intercalate tokens).splitOn '_' = tokens := by
      apply List.splitOn_intercalate
      · intro token htoken
        exact underscore_notMem_of_tokenPattern (htokens token htoken)
      · exact List.ne_nil_of_length_pos hpos
    rw [check_eq_ok_iff, mem_agentIdPattern_iff, hsplit]
    exact ⟨fun token htoken => validateToken_iff.mpr (htokens token htoken), hlen⟩

/-- A text parses when the checks accept it. -/
theorem AgentId.exists_parse_iff {s : String} :
    (∃ id, parse s = .ok id) ↔ check s.toList = .ok () := by
  constructor
  · rintro ⟨id, h⟩
    rw [← raw_of_parse h]
    exact id.valid
  · intro h
    exact ⟨⟨s, h⟩, parse_raw ⟨s, h⟩⟩

/-! ## One token of a subject -/

/-- The text is one token of a subject: not empty, and without separator, wildcard or blank. -/
structure IsSubjectToken (token : List Char) : Prop where
  nonempty : token ≠ []
  separator : '.' ∉ token
  wildcard : '*' ∉ token ∧ '>' ∉ token
  blank : ∀ c ∈ token, EventEnvelope.isWhiteSpace c = false

/-- No character of an id is a blank. -/
theorem isWhiteSpace_of_isTokenChar (h : c = '_' ∨ isTokenChar c = true) :
    EventEnvelope.isWhiteSpace c = false := by
  have hrange : 0x2d ≤ c.toNat ∧ c.toNat ≤ 0x7a := by
    rcases h with rfl | h
    · decide
    · simp only [isTokenChar, Char.isLower, Char.isDigit, Bool.or_eq_true, Bool.and_eq_true,
        decide_eq_true_eq, ge_iff_le, UInt32.le_iff_toNat_le, beq_iff_eq] at h
      rcases h with (h | h) | rfl
      · exact ⟨le_trans (by decide) h.1, h.2⟩
      · exact ⟨le_trans (by decide) h.1, le_trans h.2 (by decide)⟩
      · decide
  obtain ⟨hlo, hhi⟩ := hrange
  simp only [EventEnvelope.isWhiteSpace, Bool.or_eq_false_iff, Bool.and_eq_false_iff,
    decide_eq_false_iff_not, beq_eq_false_iff_ne]
  omega

/-- An id is one token of a subject. -/
theorem AgentId.isSubjectToken (id : AgentId) : IsSubjectToken id.raw.toList where
  nonempty := id.toList_ne_nil
  separator := id.dot_not_mem
  wildcard := by
    constructor
    · intro hmem
      rcases char_of_check id.valid hmem with h | h
      · cases h
      · exact absurd h (by decide)
    · intro hmem
      rcases char_of_check id.valid hmem with h | h
      · cases h
      · exact absurd h (by decide)
  blank c hc := isWhiteSpace_of_isTokenChar (char_of_check id.valid hc)

/-- The tokens of an agent's subject: those of the prefix, and the id. -/
theorem AgentId.splitOn_subject (id : AgentId) :
    id.subject.toList.splitOn '.' = subjectPrefix.toList.splitOn '.' ++ [id.raw.toList] := by
  have hsubject : id.subject.toList =
      ['.'].intercalate ["agent".toList, "events".toList, id.raw.toList] := by
    rw [subject, String.toList_append, String.toList_append, List.intercalate_cons_cons,
      List.intercalate_cons_cons, List.intercalate_singleton]
    rfl
  have hprefix : subjectPrefix.toList.splitOn '.' = ["agent".toList, "events".toList] := by
    decide +kernel
  rw [hsubject, hprefix, List.splitOn_intercalate]
  · rfl
  · intro token htoken
    simp only [List.mem_cons, List.not_mem_nil, or_false] at htoken
    rcases htoken with rfl | rfl | rfl
    · decide
    · decide
    · exact id.dot_not_mem
  · exact List.cons_ne_nil _ _

/-! ## The inverses -/

/-- Take a prefix and a suffix off a name. -/
def stripAffixes (before after name : String) : Option String := do
  let rest ← name.toList.dropPrefix? before.toList
  let raw ← rest.dropSuffix? after.toList
  return .ofList raw

/-- It undoes putting them on. -/
theorem isPartialInv_stripAffixes (before after : String) :
    IsPartialInv (fun raw => before ++ raw ++ after) (stripAffixes before after) := by
  intro raw name
  have hraw : ∀ chars : List Char, String.ofList chars = raw ↔ chars = raw.toList := by
    intro chars
    constructor
    · rintro rfl
      exact String.toList_ofList.symm
    · rintro rfl
      exact String.ofList_toList
  have hname : before ++ raw ++ after = name ↔
      name.toList = before.toList ++ (raw.toList ++ after.toList) := by
    rw [← String.toList_inj, String.toList_append, String.toList_append, List.append_assoc]
    exact eq_comm
  rw [hname]
  simp only [stripAffixes, Option.bind_eq_bind, Option.bind_eq_some_iff,
    List.dropPrefix?_eq_some_iff, List.dropSuffix?_eq_some_iff, beq_iff_eq, Option.pure_def,
    Option.some_inj, hraw]
  constructor
  · rintro ⟨rest, ⟨before', hrest, rfl⟩, chars, ⟨after', rfl, rfl⟩, rfl⟩
    exact hrest
  · intro h
    exact ⟨_, ⟨_, h, rfl⟩, _, ⟨_, rfl, rfl⟩, rfl⟩

/-- The parsed id, when the text parses. -/
def AgentId.parse? (input : String) : Option AgentId := (parse input).toOption

theorem AgentId.isPartialInv_parse? : IsPartialInv raw parse? := by
  intro id input
  constructor
  · intro h
    unfold parse? at h
    cases hparse : parse input with
    | error e =>
      rw [hparse] at h
      cases h
    | ok id' =>
      rw [hparse] at h
      obtain rfl : id' = id := Option.some_inj.mp h
      exact raw_of_parse hparse
  · rintro rfl
    rw [parse?, parse_raw]
    rfl

/-- A name that puts an affix around an id is undone by taking the affixes off and parsing. -/
theorem isPartialInv_affixed {name : AgentId → String} {before after : String}
    (h : ∀ id, name id = before ++ id.raw ++ after) :
    IsPartialInv name fun text => (stripAffixes before after text).bind AgentId.parse? := by
  have hname : name = (fun raw => before ++ raw ++ after) ∘ AgentId.raw := funext h
  rw [hname]
  exact AgentId.isPartialInv_parse?.comp (isPartialInv_stripAffixes before after)

/-- The agent with the subject. -/
def ofSubject (text : String) : Option AgentId :=
  (stripAffixes (subjectPrefix ++ ".") "" text).bind AgentId.parse?

/-- The agent with the consumer name. -/
def ofConsumerName (text : String) : Option AgentId :=
  (stripAffixes "agent-" "" text).bind AgentId.parse?

/-- The agent with the configuration file name. -/
def ofFileName (text : String) : Option AgentId :=
  (stripAffixes "" ".toml" text).bind AgentId.parse?

theorem isPartialInv_ofSubject : IsPartialInv AgentId.subject ofSubject :=
  isPartialInv_affixed fun id => by rw [AgentId.subject, String.append_empty]

theorem isPartialInv_ofConsumerName : IsPartialInv consumerName ofConsumerName :=
  isPartialInv_affixed fun id => by rw [consumerName, String.append_empty]

theorem isPartialInv_ofFileName : IsPartialInv fileName ofFileName :=
  isPartialInv_affixed fun id => by rw [fileName, String.empty_append]

/-- The file of an agent is never a temporary file of an agent. -/
theorem fileName_ne_tempName (id id' : AgentId) (pid : ℕ) : fileName id ≠ tempName id' pid := by
  intro h
  have hkind : classify (fileName id) = classify (tempName id' pid) := congrArg classify h
  rw [classify_fileName, classify_tempName] at hkind
  cases hkind

/-- The parser accepts exactly the grammar, and the id has the text that was parsed.  The subject of
an agent has exactly one token after the prefix, without separator, wildcard or blank.  The subject,
the consumer name and the configuration file name of an agent determine it, and each is undone by a
function that answers for no other name.  A load takes every configuration file name for a
configuration with the id as stem and every name that an operation writes to for a temporary file,
and no configuration file name is a temporary one. -/
theorem names_exact :
    (∀ s : String, (∃ id, AgentId.parse s = .ok id) ↔ IsAgentId s.toList) ∧
    (∀ (s : String) (id : AgentId), AgentId.parse s = .ok id → id.asStr = s) ∧
    (∀ id : AgentId, id.subject.toList.splitOn '.' =
        subjectPrefix.toList.splitOn '.' ++ [id.asStr.toList] ∧
      IsSubjectToken id.asStr.toList) ∧
    (Injective AgentId.subject ∧ IsPartialInv AgentId.subject ofSubject) ∧
    (Injective consumerName ∧ IsPartialInv consumerName ofConsumerName) ∧
    (Injective fileName ∧ IsPartialInv fileName ofFileName) ∧
    (∀ id : AgentId, classify (fileName id) = .config id.asStr.toList) ∧
    (∀ (id : AgentId) (pid : ℕ), classify (tempName id pid) = .temp) ∧
    ∀ (id id' : AgentId) (pid : ℕ), fileName id ≠ tempName id' pid := by
  refine ⟨fun s => ?_, fun s id h => AgentId.raw_of_parse h, fun id => ?_, ?_, ?_, ?_,
    classify_fileName, classify_tempName, fileName_ne_tempName⟩
  · rw [AgentId.exists_parse_iff, AgentId.check_iff_isAgentId]
  · exact ⟨id.splitOn_subject, id.isSubjectToken⟩
  · exact ⟨isPartialInv_ofSubject.injective, isPartialInv_ofSubject⟩
  · exact ⟨isPartialInv_ofConsumerName.injective, isPartialInv_ofConsumerName⟩
  · exact ⟨isPartialInv_ofFileName.injective, isPartialInv_ofFileName⟩

example : ofFileName "coding_main.toml" = AgentId.parse? "coding_main" := by decide +kernel

end Agentd
