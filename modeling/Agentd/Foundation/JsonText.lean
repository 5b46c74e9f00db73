import Mathlib

/-!
# Compact JSON texts

The texts that a JSON serializer writes when it leaves out all white space between tokens.  Strings
are quoted with the short escapes, and with `\u00xx` for the other control characters; everything
else in them is written as it is.

Such a text is a single line, whatever the strings in it contain (`newline_notMem`), and so is its
UTF-8 encoding (`newline_mem_encode`).  A part of an encoding that is an encoding itself stands for
a part of the text (`prefix_of_encode`). -/

namespace JsonText

/-- How a character is written in a string. -/
def escape (c : Char) : List Char :=
  if c = '"' then ['\\', '"']
  else if c = '\\' then ['\\', '\\']
  else if c = '\n' then ['\\', 'n']
  else if c = '\r' then ['\\', 'r']
  else if c = '\t' then ['\\', 't']
  else if c = '\x08' then ['\\', 'b']
  else if c = '\x0c' then ['\\', 'f']
  else if c.toNat < 32 then
    ['\\', 'u', '0', '0', Nat.digitChar (c.toNat / 16), Nat.digitChar (c.toNat % 16)]
  else [c]

def writeString (s : String) : List Char := '"' :: s.toList.flatMap escape ++ ['"']

def writeNat (n : ℕ) : List Char := (toString n).toList

def writeBool (b : Bool) : List Char := (if b then "true" else "false").toList

def writeNull : List Char := "null".toList

def writeArray (items : List (List Char)) : List Char := '[' :: [','].intercalate items ++ [']']

/-- A member of an object, with its name. -/
def writeMember (m : String × List Char) : List Char := writeString m.1 ++ ':' :: m.2

def writeObject (members : List (String × List Char)) : List Char :=
  '\x7b' :: [','].intercalate (members.map writeMember) ++ ['\x7d']

end JsonText

/-- The compact JSON texts. -/
inductive JsonText : List Char → Prop
  | null : JsonText JsonText.writeNull
  | bool (b : Bool) : JsonText (JsonText.writeBool b)
  | number (n : ℕ) : JsonText (JsonText.writeNat n)
  | string (s : String) : JsonText (JsonText.writeString s)
  | array {items : List (List Char)} (h : ∀ item ∈ items, JsonText item) :
      JsonText (JsonText.writeArray items)
  | object {members : List (String × List Char)} (h : ∀ m ∈ members, JsonText m.2) :
      JsonText (JsonText.writeObject members)

namespace JsonText

variable {c : Char} {text : List Char}

/-! ## Single lines -/

/-- The newline of a string is escaped. -/
theorem newline_notMem_escape (c : Char) : '\n' ∉ escape c := by
  unfold escape
  repeat' split
  all_goals simp_all [eq_comm (a := '\n')]

theorem newline_notMem_writeString (s : String) : '\n' ∉ writeString s := by
  simp [writeString, newline_notMem_escape]

/-- Commas between texts add no newline. -/
theorem newline_notMem_intercalate {items : List (List Char)} (h : ∀ item ∈ items, '\n' ∉ item) :
    '\n' ∉ [','].intercalate items := by
  induction items with
  | nil => simp
  | cons item items ih =>
    obtain ⟨hitem, hitems⟩ := List.forall_mem_cons.mp h
    cases items with
    | nil => simpa using hitem
    | cons item' items =>
      rw [List.intercalate_cons_cons]
      simp [hitem, ih hitems]

/-- A compact JSON text is a single line. -/
theorem newline_notMem (h : JsonText text) : '\n' ∉ text := by
  induction h with
  | null => decide
  | bool b => cases b <;> decide
  | number n =>
    intro hmem
    rw [writeNat, Nat.toString_eq_repr, Nat.toList_repr] at hmem
    exact absurd (Nat.isDigit_of_mem_toDigits (by decide) (by decide) hmem) (by decide)
  | string s => exact newline_notMem_writeString s
  | array _ ih => simp [writeArray, newline_notMem_intercalate ih]
  | @object members _ ih =>
    have hmembers : '\n' ∉ [','].intercalate (members.map writeMember) := by
      refine newline_notMem_intercalate fun item hitem => ?_
      obtain ⟨m, hm, rfl⟩ := List.mem_map.mp hitem
      simp [writeMember, newline_notMem_writeString, ih m hm]
    simp [writeObject, hmembers]

/-! ## Encoding -/

/-- The UTF-8 encoding of a text. -/
def encode (text : List Char) : List UInt8 := text.flatMap String.utf8EncodeChar

/-- The byte of a newline. -/
def newline : UInt8 := 10

/-- The byte of a newline stands for nothing else. -/
theorem newline_mem_encodeChar : newline ∈ String.utf8EncodeChar c ↔ c = '\n' := by
  have hbyte : ∀ n < 256, newline = UInt8.ofNat n ↔ n = 10 := by
    intro n hn
    rw [newline, ← UInt8.toNat_inj]
    simp [Nat.mod_eq_of_lt hn, eq_comm]
  have hchar : c = '\n' ↔ c.val.toNat = 10 := by
    rw [Char.ext_iff, ← UInt32.toNat_inj]
    rfl
  -- the bytes of the longer encodings are above the ASCII range
  fun_cases String.utf8EncodeChar
  all_goals
    simp (disch := omega) only [List.mem_cons, List.not_mem_nil, or_false, hbyte, hchar]
    omega

/-- The encoding of a text without a newline is a line. -/
theorem newline_mem_encode : newline ∈ encode text ↔ '\n' ∈ text := by
  simp [encode, newline_mem_encodeChar]

/-- The encoding of a character tells the character, whatever follows. -/
theorem eq_of_encodeChar_append {c d : Char} {l r : List UInt8}
    (h : String.utf8EncodeChar c ++ l = String.utf8EncodeChar d ++ r) : c = d := by
  have hbytes := congrArg List.toByteArray h
  rw [List.toByteArray_append, List.toByteArray_append] at hbytes
  have hc := ByteArray.utf8DecodeChar?_utf8EncodeChar_append (b := l.toByteArray) (c := c)
  rw [hbytes, ByteArray.utf8DecodeChar?_utf8EncodeChar_append] at hc
  exact (Option.some_inj.mp hc).symm

/-- An encoding that another one starts with is that of its first characters. -/
theorem prefix_of_encode {l r : List Char} (h : encode l <+: encode r) : l <+: r := by
  induction l generalizing r with
  | nil => exact List.nil_prefix
  | cons c l ih =>
    obtain ⟨more, hmore⟩ := h
    rw [encode, List.flatMap_cons, List.append_assoc] at hmore
    cases r with
    | nil =>
      have hpos := c.utf8Size_pos
      rw [← String.length_utf8EncodeChar] at hpos
      rw [List.append_eq_nil_iff.mp hmore |>.1] at hpos
      cases hpos
    | cons d r =>
      rw [encode, List.flatMap_cons] at hmore
      obtain rfl := eq_of_encodeChar_append hmore
      exact List.cons_prefix_cons.mpr ⟨rfl, ih ⟨more, List.append_cancel_left hmore⟩⟩

end JsonText
