import Mathlib

/-!
# Logical agent identity

An agent id is one to sixteen tokens joined by underscores, each token matching
`[a-z0-9][a-z0-9-]{0,62}`.  `AgentId.parse` is the parser of the daemon; an `AgentId` carries the
proof that its text passed the parser's check, so an id that the daemon would reject cannot be
built.  The subject, the consumer name and the configuration file name of an agent are all derived
from this text without any transformation.

The last section collects what later modules need to know about the characters of an id: it is not
empty, and every character is a lowercase letter, a digit, a hyphen or an underscore, in
particular never a dot.
-/

namespace Agentd

/-- Subject prefix every agent's events live under. -/
def subjectPrefix : String := "agent.events"

/-- Maximum number of tokens in one agent id. -/
def maxTokens : ℕ := 16

/-- Maximum length of one token, in bytes. -/
def maxTokenLen : ℕ := 63

/-- The reasons for which an agent id is rejected (`AgentdError::InvalidAgentId`), with the values
that the message quotes. -/
inductive AgentIdError where
  /-- `too many tokens ({count} > {MAX_TOKENS})` -/
  | tooManyTokens (count : ℕ)
  /-- `empty token` -/
  | emptyToken
  /-- `token {token:?}: first character must be [a-z0-9]` -/
  | firstCharacter (token : String)
  /-- `token {token:?}: length {len} > {MAX_TOKEN_LEN}` -/
  | tokenLength (token : String) (len : ℕ)
  /-- `token {token:?}: character {c:?} not allowed` -/
  | character (token : String) (c : Char)
  deriving DecidableEq, Repr

/-- The characters a token may start with: `[a-z0-9]`. -/
def isTokenStart (c : Char) : Bool := c.isLower || c.isDigit

/-- The characters a token may continue with: `[a-z0-9-]`. -/
def isTokenChar (c : Char) : Bool := c.isLower || c.isDigit || c == '-'

/-- `validate_token`: the first character, then the byte length, then the other characters. -/
def validateToken : List Char → Except AgentIdError Unit
  | [] => .error .emptyToken
  | first :: chars =>
    if !isTokenStart first then .error (.firstCharacter (.ofList (first :: chars)))
    else
      let len := first.utf8Size + (chars.map Char.utf8Size).sum
      if len > maxTokenLen then .error (.tokenLength (.ofList (first :: chars)) len)
      else match chars.find? fun c => !isTokenChar c with
        | some c => .error (.character (.ofList (first :: chars)) c)
        | none => .ok ()

/-- The checks of `AgentId::parse` on the characters of its input. -/
def AgentId.check (input : List Char) : Except AgentIdError Unit :=
  let tokens := input.splitOn '_'
  if tokens.length > maxTokens then .error (.tooManyTokens tokens.length)
  else tokens.forM validateToken

/-- A validated agent id. -/
structure AgentId where
  /-- The text of the id. -/
  raw : String
  /-- The text passed the parser. -/
  valid : AgentId.check raw.toList = .ok ()
  deriving DecidableEq

namespace AgentId

/-- `AgentId::parse`. -/
def parse (input : String) : Except AgentIdError AgentId :=
  match h : check input.toList with
  | .ok () => .ok ⟨input, h⟩
  | .error e => .error e

/-- The canonical form as given at parse time. -/
def asStr (id : AgentId) : String := id.raw

/-- The JetStream filter subject of the agent. -/
def subject (id : AgentId) : String := subjectPrefix ++ "." ++ id.raw

/-- Ids are determined by their text. -/
theorem raw_injective : Function.Injective raw := by
  rintro ⟨a, ha⟩ ⟨b, hb⟩ (rfl : a = b)
  rfl

/-- Ids are ordered as their texts are. -/
instance : LinearOrder AgentId := LinearOrder.lift' raw raw_injective

/-- Parsing the text of an id gives the id back. -/
theorem parse_raw (id : AgentId) : parse id.raw = .ok id := by
  unfold parse
  split
  · rfl
  · rename_i e h
    rw [id.valid] at h
    cases h

/-- A parsed id has the text that was parsed. -/
theorem raw_of_parse {input : String} {id : AgentId} (h : parse input = .ok id) :
    id.raw = input := by
  unfold parse at h
  split at h
  · cases h
    rfl
  · cases h

/-! ## The characters of an id -/

/-- A token that passes consists of allowed characters only. -/
theorem isTokenChar_of_validateToken {token : List Char} (h : validateToken token = .ok ())
    {c : Char} (hc : c ∈ token) : isTokenChar c = true := by
  cases token with
  | nil => simp at hc
  | cons first chars =>
    simp only [validateToken] at h
    split at h
    · cases h
    rename_i hstart
    split at h
    · cases h
    split at h
    · cases h
    rename_i hfind
    rcases List.mem_cons.mp hc with rfl | hc
    · simp only [isTokenStart, Bool.not_eq_true, Bool.not_eq_false'] at hstart
      simp only [isTokenChar, Bool.or_eq_true] at hstart ⊢
      exact .inl (by simpa using hstart)
    · simpa using List.find?_eq_none.mp hfind c hc

/-- When a list of tokens passes, every token of it does. -/
theorem validateToken_of_forM {tokens : List (List Char)}
    (h : tokens.forM validateToken = Except.ok ()) {token : List Char} (ht : token ∈ tokens) :
    validateToken token = .ok () := by
  induction tokens with
  | nil => simp at ht
  | cons first rest ih =>
    change (validateToken first >>= fun _ => rest.forM validateToken) = _ at h
    cases hfirst : validateToken first with
    | error e =>
      rw [hfirst] at h
      cases h
    | ok u =>
      rw [hfirst] at h
      rcases List.mem_cons.mp ht with rfl | ht
      · exact hfirst
      · exact ih h ht

/-- Every token of an accepted text passes. -/
theorem validateToken_of_check {input : List Char} (h : check input = .ok ())
    {token : List Char} (ht : token ∈ input.splitOn '_') : validateToken token = .ok () := by
  simp only [check] at h
  split at h
  · cases h
  · exact validateToken_of_forM h ht

/-- The members of an interspersed list are those of the list and the separator. -/
theorem mem_of_mem_intersperse {α : Type*} {sep x : α} {l : List α}
    (h : x ∈ l.intersperse sep) : x ∈ l ∨ x = sep := by
  induction l with
  | nil => simp at h
  | cons a l ih =>
    cases l with
    | nil => exact .inl (by simpa using h)
    | cons b l =>
      rw [List.intersperse_cons_cons] at h
      rcases List.mem_cons.mp h with rfl | h
      · exact .inl (by simp)
      rcases List.mem_cons.mp h with rfl | h
      · exact .inr rfl
      · exact (ih h).imp_left fun hx => List.mem_cons_of_mem _ hx

/-- Every character of an accepted text is an underscore or allowed in a token. -/
theorem char_of_check {input : List Char} (h : check input = .ok ()) {c : Char}
    (hc : c ∈ input) : c = '_' ∨ isTokenChar c = true := by
  have hsplit : ['_'].intercalate (input.splitOn '_') = input := List.intercalate_splitOn '_'
  rw [← hsplit, List.intercalate] at hc
  obtain ⟨piece, hpiece, hcp⟩ := List.mem_flatten.mp hc
  rcases mem_of_mem_intersperse hpiece with htoken | rfl
  · exact .inr (isTokenChar_of_validateToken (validateToken_of_check h htoken) hcp)
  · exact .inl (by simpa using hcp)

/-- No id contains a dot. -/
theorem dot_not_mem (id : AgentId) : '.' ∉ id.raw.toList := by
  intro hdot
  rcases char_of_check id.valid hdot with h | h
  · cases h
  · exact absurd h (by decide)

/-- No id is empty. -/
theorem toList_ne_nil (id : AgentId) : id.raw.toList ≠ [] := by
  intro hnil
  have h := id.valid
  rw [hnil] at h
  exact absurd h (by decide)

end AgentId

end Agentd
