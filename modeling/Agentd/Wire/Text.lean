import Agentd.Event
import Agentd.Foundation.JsonText

/-!
# Values and their texts

`Json.write` is the compact text of a value.  What a serializer writes for a record is the text of a
value whose numbers are counts of 64 bits (`Json.Plain`), and such a value is all that its text
says: `Json.read` takes the text apart again, and what stands behind a value does not matter to it
(`Plain.readBack`).  So two plain values with the same text are equal (`write_injective`), and a
text that is cut short is not read at all (`read_cut`).

The reader knows the compact texts only.  The text parser that the daemon uses accepts more, and it
stays a parameter; the reader shows that what is assumed of that parser can be had.
-/

namespace Agentd

open JsonText

namespace Json

/-! ## Writing -/

mutual

/-- The compact text of a value. -/
def write : Json → List Char
  | .null => writeNull
  | .bool b => writeBool b
  | .integer (.ofNat n) => writeNat n
  | .integer (.negSucc n) => '-' :: writeNat (n + 1)
  | .float text => text.toList
  | .string s => writeString s
  | .array items => writeArray (writeItems items)
  | .object entries => writeObject (writeEntries entries)

def writeItems : List Json → List (List Char)
  | [] => []
  | item :: items => write item :: writeItems items

def writeEntries : List (String × Json) → List (String × List Char)
  | [] => []
  | (name, value) :: entries => (name, write value) :: writeEntries entries

end

theorem writeItems_eq (items : List Json) : writeItems items = items.map write := by
  induction items with
  | nil => rfl
  | cons item items ih => rw [writeItems, ih, List.map_cons]

theorem writeEntries_eq (entries : List (String × Json)) :
    writeEntries entries = entries.map fun entry => (entry.1, write entry.2) := by
  induction entries with
  | nil => rfl
  | cons entry entries ih => rw [writeEntries, ih, List.map_cons]

/-- The numbers of the value are counts of 64 bits, and at most `depth` arrays and objects are
nested. -/
inductive Plain : ℕ → Json → Prop
  | null {depth : ℕ} : Plain depth .null
  | bool {depth : ℕ} (b : Bool) : Plain depth (.bool b)
  | count {depth n : ℕ} (h : n < 2 ^ 64) : Plain depth (.integer n)
  | string {depth : ℕ} (s : String) : Plain depth (.string s)
  | array {depth : ℕ} {items : List Json} (h : ∀ item ∈ items, Plain depth item) :
      Plain (depth + 1) (.array items)
  | object {depth : ℕ} {entries : List (String × Json)}
      (h : ∀ entry ∈ entries, Plain depth entry.2) :
      Plain (depth + 1) (.object entries)

variable {depth : ℕ} {j j' : Json} {text rest : List Char}

/-- The text of a plain value is compact JSON. -/
theorem Plain.jsonText (h : Plain depth j) : JsonText (write j) := by
  induction h with
  | null => exact .null
  | bool b => exact .bool b
  | count _ => exact .number _
  | string s => exact .string s
  | array _ ih =>
    rw [write, writeItems_eq]
    exact .array fun item hitem => by
      obtain ⟨j, hj, rfl⟩ := List.mem_map.mp hitem
      exact ih j hj
  | object _ ih =>
    rw [write, writeEntries_eq]
    exact .object fun m hm => by
      obtain ⟨entry, hentry, rfl⟩ := List.mem_map.mp hm
      exact ih entry hentry

/-- A value may be nested less than is allowed. -/
theorem Plain.mono (h : Plain depth j) {depth' : ℕ} (hle : depth ≤ depth') : Plain depth' j := by
  induction h generalizing depth' with
  | null => exact .null
  | bool b => exact .bool b
  | count h => exact .count h
  | string s => exact .string s
  | array _ ih =>
    obtain ⟨n, rfl⟩ := Nat.exists_eq_add_of_le' (Nat.lt_of_lt_of_le (Nat.succ_pos _) hle)
    exact .array fun item hitem => ih item hitem (Nat.le_of_succ_le_succ hle)
  | object _ ih =>
    obtain ⟨n, rfl⟩ := Nat.exists_eq_add_of_le' (Nat.lt_of_lt_of_le (Nat.succ_pos _) hle)
    exact .object fun entry hentry => ih entry hentry (Nat.le_of_succ_le_succ hle)

/-! ## Reading strings -/

/-- The character that a short escape stands for. -/
def shortEscape (c : Char) : Option Char :=
  if c = '"' then some '"'
  else if c = '\\' then some '\\'
  else if c = '/' then some '/'
  else if c = 'n' then some '\n'
  else if c = 'r' then some '\r'
  else if c = 't' then some '\t'
  else if c = 'b' then some '\x08'
  else if c = 'f' then some '\x0c'
  else none

/-- A hexadecimal digit in lower case. -/
def hexDigit (c : Char) : Option ℕ :=
  if c.isDigit then some (c.toNat - 48)
  else if 'a' ≤ c ∧ c ≤ 'f' then some (c.toNat - 87) else none

/-- The rest of a string behind its opening quote, and what follows the string. -/
def readChars : List Char → Option (List Char × List Char)
  | [] => none
  | c :: rest =>
    if c = '"' then some ([], rest)
    else if c = '\\' then
      match rest with
      | [] => none
      | 'u' :: '0' :: '0' :: high :: low :: rest =>
        match hexDigit high, hexDigit low with
        | some high, some low =>
          (readChars rest).map fun (s, rest) => (.ofNat (16 * high + low) :: s, rest)
        | _, _ => none
      | e :: rest =>
        match shortEscape e with
        | some c => (readChars rest).map fun (s, rest) => (c :: s, rest)
        | none => none
    else if c.toNat < 32 then none
    else (readChars rest).map fun (s, rest) => (c :: s, rest)

/-- A character is read back from how it is written. -/
theorem readChars_escape (c : Char) (rest : List Char) :
    readChars (escape c ++ rest) = (readChars rest).map fun (s, rest) => (c :: s, rest) := by
  unfold escape
  split_ifs with h₁ h₂ h₃ h₄ h₅ h₆ h₇ h₈ <;> rw [List.cons_append, readChars.eq_def]
  · subst h₁; simp [shortEscape]
  · subst h₂; simp [shortEscape]
  · subst h₃; simp [shortEscape]
  · subst h₄; simp [shortEscape]
  · subst h₅; simp [shortEscape]
  · subst h₆; simp [shortEscape]
  · subst h₇; simp [shortEscape]
  · have hdigits : ∀ n < 32, hexDigit (Nat.digitChar (n / 16)) = some (n / 16) ∧
        hexDigit (Nat.digitChar (n % 16)) = some (n % 16) := by decide
    obtain ⟨hhigh, hlow⟩ := hdigits c.toNat h₈
    simp [hhigh, hlow, Nat.div_add_mod, Char.ofNat_toNat]
  · simp [h₁, h₂, h₈]

/-- A string is read back from how it is written. -/
theorem readChars_flatMap_escape (s rest : List Char) :
    readChars (s.flatMap escape ++ '"' :: rest) = some (s, rest) := by
  induction s with
  | nil =>
    rw [List.flatMap_nil, List.nil_append, readChars.eq_def]
    simp
  | cons c s ih => rw [List.flatMap_cons, List.append_assoc, readChars_escape, ih, Option.map_some]

/-! ## Reading values -/

/-- What follows the word at the start of a text. -/
def literal (word text : List Char) : Option (List Char) :=
  if word <+: text then some (text.drop word.length) else none

/-- The number at the start of a text, and what follows it. -/
def readNat (text : List Char) : Json × List Char :=
  (.integer (Nat.ofDigitChars 10 (text.takeWhile Char.isDigit) 0), text.dropWhile Char.isDigit)

mutual

/-- The value at the start of a text, and what follows it. -/
def readValue : ℕ → List Char → Option (Json × List Char)
  | 0, _ | _, [] => none
  | fuel + 1, c :: rest =>
    if c = 'n' then (literal ['u', 'l', 'l'] rest).map fun rest => (.null, rest)
    else if c = 't' then (literal ['r', 'u', 'e'] rest).map fun rest => (.bool true, rest)
    else if c = 'f' then (literal ['a', 'l', 's', 'e'] rest).map fun rest => (.bool false, rest)
    else if c = '"' then (readChars rest).map fun (s, rest) => (.string (String.ofList s), rest)
    else if c = '[' then
      if rest.head? = some ']' then some (.array [], rest.tail)
      else (readItems fuel rest).map fun (items, rest) => (.array items, rest)
    else if c = '\x7b' then
      if rest.head? = some '\x7d' then some (.object [], rest.tail)
      else (readEntries fuel rest).map fun (entries, rest) => (.object entries, rest)
    else if c.isDigit then some (readNat (c :: rest))
    else none

/-- The items of an array behind its bracket, and what follows the array. -/
def readItems : ℕ → List Char → Option (List Json × List Char)
  | 0, _ => none
  | fuel + 1, text => do
    let (item, rest) ← readValue fuel text
    if rest.head? = some ',' then
      let (items, rest) ← readItems fuel rest.tail
      return (item :: items, rest)
    else if rest.head? = some ']' then return ([item], rest.tail)
    else none

/-- The entries of an object behind its brace, and what follows the object. -/
def readEntries : ℕ → List Char → Option (List (String × Json) × List Char)
  | 0, _ => none
  | fuel + 1, text => do
    let (name, rest) ← readChars (← literal ['"'] text)
    let (value, rest) ← readValue fuel (← literal [':'] rest)
    if rest.head? = some ',' then
      let (entries, rest) ← readEntries fuel rest.tail
      return ((String.ofList name, value) :: entries, rest)
    else if rest.head? = some '\x7d' then return ([(String.ofList name, value)], rest.tail)
    else none

end

/-- The value that a text stands for. -/
def read (text : List Char) : Option Json :=
  match readValue text.length text with
  | some (j, []) => some j
  | _ => none

/-! ## What was written is read -/

theorem literal_append (word rest : List Char) : literal word (word ++ rest) = some rest := by
  simp [literal]

theorem isDigit_of_mem_writeNat {c : Char} {n : ℕ} (h : c ∈ writeNat n) : c.isDigit = true := by
  rw [writeNat, Nat.toString_eq_repr, Nat.toList_repr] at h
  exact Nat.isDigit_of_mem_toDigits (by decide) (by decide) h

theorem writeNat_ne_nil (n : ℕ) : writeNat n ≠ [] := by
  rw [writeNat, Nat.toString_eq_repr, Nat.toList_repr]
  exact Nat.toDigits_ne_nil

/-- A number ends where no digit follows. -/
theorem readNat_writeNat (n : ℕ) (hrest : ∀ c ∈ rest.head?, c.isDigit = false) :
    readNat (writeNat n ++ rest) = (.integer n, rest) := by
  have hdigits : ∀ c ∈ writeNat n, c.isDigit = true := fun c => isDigit_of_mem_writeNat
  have hstop : rest.takeWhile Char.isDigit = [] ∧ rest.dropWhile Char.isDigit = rest := by
    cases rest with
    | nil => exact ⟨rfl, rfl⟩
    | cons c rest =>
      have hc := hrest c rfl
      exact ⟨List.takeWhile_cons_of_neg (by simp [hc]), List.dropWhile_cons_of_neg (by simp [hc])⟩
  rw [readNat, List.takeWhile_append_of_pos hdigits, List.dropWhile_append_of_pos hdigits, hstop.1,
    hstop.2, List.append_nil, writeNat, Nat.toString_eq_repr, Nat.toList_repr,
    Nat.ofDigitChars_ten_toDigits]

/-- A plain value does not look like the end of an array. -/
theorem Plain.head_ne (h : Plain depth j) : (write j ++ rest).head? ≠ some ']' := by
  cases h with
  | null => nofun
  | bool b => cases b <;> nofun
  | string s => nofun
  | array _ => nofun
  | object _ => nofun
  | @count _ n _ =>
    obtain ⟨c, cs, hcs⟩ := List.exists_cons_of_ne_nil (writeNat_ne_nil n)
    have hc : c.isDigit = true := isDigit_of_mem_writeNat (hcs ▸ List.mem_cons_self)
    change (writeNat n ++ rest).head? ≠ some ']'
    rw [hcs, List.cons_append, List.head?_cons]
    rintro ⟨rfl⟩
    exact absurd hc (by decide)

/-- The value is read back from its text, whatever follows it, if the text is as long as the fuel.
-/
def ReadBack (j : Json) : Prop :=
  ∀ fuel rest, (write j).length ≤ fuel → (∀ c ∈ rest.head?, Char.isDigit c = false) →
    readValue fuel (write j ++ rest) = some (j, rest)

/-- The items of an array are read one after the other. -/
theorem readItems_intercalate {items : List Json} (hne : items ≠ [])
    (hitems : ∀ item ∈ items, ReadBack item) (fuel : ℕ)
    (hfuel : ([','].intercalate (items.map write)).length < fuel) :
    readItems fuel ([','].intercalate (items.map write) ++ ']' :: rest) = some (items, rest) := by
  induction items generalizing fuel with
  | nil => exact absurd rfl hne
  | cons item items ih =>
    obtain ⟨hitem, hitems⟩ := List.forall_mem_cons.mp hitems
    obtain ⟨fuel, rfl⟩ := Nat.exists_eq_add_of_le' (Nat.lt_of_le_of_lt (Nat.zero_le _) hfuel)
    cases items with
    | nil =>
      have hread := hitem fuel (']' :: rest) (by simpa using hfuel) (by simp)
      simp [readItems, hread]
    | cons item' items =>
      rw [List.map_cons, List.map_cons, List.intercalate_cons_cons] at hfuel ⊢
      rw [← List.map_cons (f := write)] at hfuel ⊢
      have hmore := ih (by simp) hitems fuel
      generalize [','].intercalate ((item' :: items).map write) = tail at hfuel hmore ⊢
      simp only [List.length_append, List.length_singleton] at hfuel
      simp only [List.append_assoc, List.singleton_append]
      have hread := hitem fuel (',' :: (tail ++ ']' :: rest)) (by omega) (by simp)
      simp [readItems, hread, hmore (by omega)]

/-- A name with its value. -/
theorem readEntry (name : String) {value : Json} (h : ReadBack value) {fuel : ℕ}
    (hfuel : (write value).length ≤ fuel) (rest : List Char)
    (hrest : ∀ c ∈ rest.head?, Char.isDigit c = false) :
    ∃ chars, literal ['"'] (writeMember (name, write value) ++ rest) = some chars ∧
      readChars chars = some (name.toList, ':' :: (write value ++ rest)) ∧
      readValue fuel (write value ++ rest) = some (value, rest) := by
  refine ⟨name.toList.flatMap escape ++ '"' :: ':' :: (write value ++ rest), ?_,
    readChars_flatMap_escape _ _, h fuel rest hfuel hrest⟩
  rw [← literal_append ['"']]
  simp [writeMember, writeString]

/-- The entries of an object are read one after the other. -/
theorem readEntries_intercalate {entries : List (String × Json)} (hne : entries ≠ [])
    (hentries : ∀ entry ∈ entries, ReadBack entry.2) (fuel : ℕ)
    (hfuel : ([','].intercalate
      (entries.map fun entry => writeMember (entry.1, write entry.2))).length < fuel) :
    readEntries fuel ([','].intercalate
        (entries.map fun entry => writeMember (entry.1, write entry.2)) ++ '\x7d' :: rest) =
      some (entries, rest) := by
  induction entries generalizing fuel with
  | nil => exact absurd rfl hne
  | cons entry entries ih =>
    obtain ⟨name, value⟩ := entry
    obtain ⟨hvalue, hentries⟩ := List.forall_mem_cons.mp hentries
    obtain ⟨fuel, rfl⟩ := Nat.exists_eq_add_of_le' (Nat.lt_of_le_of_lt (Nat.zero_le _) hfuel)
    have hlength : (write value).length < (writeMember (name, write value)).length := by
      simp [writeMember]
      omega
    have hcolon : ∀ more, literal [':'] (':' :: more) = some more := literal_append [':']
    cases entries with
    | nil =>
      rw [List.map_singleton, List.intercalate_singleton] at hfuel ⊢
      obtain ⟨chars, hquote, hname, hread⟩ := readEntry name hvalue
        (Nat.le_of_lt_succ (hlength.trans hfuel)) ('\x7d' :: rest) (by simp)
      simp [readEntries, hquote, hname, hcolon, hread]
    | cons entry' entries =>
      rw [List.map_cons, List.map_cons, List.intercalate_cons_cons] at hfuel ⊢
      rw [← List.map_cons (f := fun entry : String × Json => writeMember (entry.1, write entry.2))]
        at hfuel ⊢
      have hmore := ih (by simp) hentries fuel
      generalize [','].intercalate ((entry' :: entries).map
        fun entry => writeMember (entry.1, write entry.2)) = tail at hfuel hmore ⊢
      simp only [List.length_append, List.length_singleton] at hfuel
      simp only [List.append_assoc, List.singleton_append]
      have hle : (write value).length ≤ fuel := by omega
      obtain ⟨chars, hquote, hname, hread⟩ :=
        readEntry name hvalue hle (',' :: (tail ++ '\x7d' :: rest)) (by simp)
      simp [readEntries, hquote, hname, hcolon, hread, hmore (by omega)]

theorem readValue_array {body : List Char} {items : List Json} {fuel : ℕ}
    (hhead : ∀ rest, (body ++ rest).head? ≠ some ']')
    (h : readItems fuel (body ++ ']' :: rest) = some (items, rest)) :
    readValue (fuel + 1) ('[' :: body ++ [']'] ++ rest) = some (.array items, rest) := by
  rw [List.cons_append, List.cons_append, List.append_assoc, List.singleton_append]
  simp only [readValue]
  rw [if_neg (hhead _), h]
  rfl

theorem readValue_object {body : List Char} {entries : List (String × Json)} {fuel : ℕ}
    (hhead : ∀ rest, (body ++ rest).head? ≠ some '\x7d')
    (h : readEntries fuel (body ++ '\x7d' :: rest) = some (entries, rest)) :
    readValue (fuel + 1) ('\x7b' :: body ++ ['\x7d'] ++ rest) = some (.object entries, rest) := by
  rw [List.cons_append, List.cons_append, List.append_assoc, List.singleton_append]
  simp only [readValue]
  rw [if_neg (hhead _), h]
  rfl

/-- A plain value is read back from its text, whatever follows. -/
theorem Plain.readBack (h : Plain depth j) : ReadBack j := by
  induction h with
  | null =>
    rintro (_ | fuel) rest hfuel -
    · cases hfuel
    · simp [write, writeNull, readValue, literal]
  | bool b =>
    rintro (_ | fuel) rest hfuel -
    · cases b <;> cases hfuel
    · cases b <;> simp [write, writeBool, readValue, literal]
  | @count _ n _ =>
    rintro (_ | fuel) rest hfuel hrest
    · exact absurd (List.eq_nil_of_length_eq_zero (Nat.le_zero.mp hfuel)) (writeNat_ne_nil n)
    · obtain ⟨c, cs, hcs⟩ := List.exists_cons_of_ne_nil (writeNat_ne_nil n)
      have hc : c.isDigit = true := isDigit_of_mem_writeNat (hcs ▸ List.mem_cons_self)
      have hother : ∀ c', c'.isDigit = false → c ≠ c' := by
        rintro c' hc' rfl
        rw [hc] at hc'
        cases hc'
      have hread := readNat_writeNat n hrest
      change readValue (fuel + 1) (writeNat n ++ rest) = _
      rw [hcs, List.cons_append] at hread ⊢
      simp [readValue, hother _, hc, hread]
  | string s =>
    rintro (_ | fuel) rest hfuel -
    · cases hfuel
    · simp [write, writeString, readValue, readChars_flatMap_escape]
  | @array depth items h ih =>
    rintro (_ | fuel) rest hfuel -
    · cases hfuel
    · rw [write, writeItems_eq] at hfuel ⊢
      cases items with
      | nil => simp [writeArray, readValue]
      | cons item items =>
        refine readValue_array (fun rest => ?_)
          (readItems_intercalate (List.cons_ne_nil _ _) ih fuel (by simpa [writeArray] using hfuel))
        cases items with
        | nil =>
          rw [List.map_singleton, List.intercalate_singleton]
          exact (h item List.mem_cons_self).head_ne
        | cons item' items =>
          rw [List.map_cons, List.map_cons, List.intercalate_cons_cons, List.append_assoc,
            List.append_assoc]
          exact (h item List.mem_cons_self).head_ne
  | @object depth entries h ih =>
    rintro (_ | fuel) rest hfuel -
    · cases hfuel
    · rw [write, writeEntries_eq] at hfuel ⊢
      cases entries with
      | nil => simp [writeObject, readValue]
      | cons entry entries =>
        rw [writeObject, List.map_map]
        refine readValue_object (fun rest => ?_)
          (readEntries_intercalate (List.cons_ne_nil _ _) ih fuel
            (by simpa [writeObject, Function.comp_def] using hfuel))
        cases entries with
        | nil => simp [writeMember, writeString]
        | cons entry' entries =>
          rw [List.map_cons, List.map_cons, List.intercalate_cons_cons]
          simp [writeMember, writeString]

/-- The reader undoes the writer. -/
theorem read_write (h : Plain depth j) : read (write j) = some j := by
  have hread := h.readBack (write j).length [] le_rfl nofun
  rw [List.append_nil] at hread
  rw [read, hread]

/-- A text stands for one plain value only. -/
theorem write_injective {depth' : ℕ} (h : Plain depth j) (h' : Plain depth' j')
    (heq : write j = write j') : j = j' := by
  have hread := read_write h
  rw [heq, read_write h'] at hread
  exact (Option.some_inj.mp hread).symm

/-! ## A text that is cut short -/

/-- What is behind a string does not matter. -/
theorem readChars_append {s : List Char} (h : readChars text = some (s, rest))
    (more : List Char) : readChars (text ++ more) = some (s, rest ++ more) := by
  fun_induction readChars text generalizing s with
  | case2 rest' =>
    cases h
    rw [List.cons_append, readChars.eq_def]
    rfl
  | case4 high low rest' _ _ hlow hhigh _ ih =>
    obtain ⟨⟨s', rest''⟩, hread, heq⟩ := Option.map_eq_some_iff.mp h
    cases heq
    have hmore := ih hread
    simp only [List.cons_append]
    rw [readChars.eq_def]
    simp [hlow, hhigh, hmore]
  | case6 e rest' hnot c he _ ih =>
    obtain ⟨⟨s', rest''⟩, hread, heq⟩ := Option.map_eq_some_iff.mp h
    cases heq
    have hmore := ih hread
    have hne : e ≠ 'u' := by
      rintro rfl
      cases he
    simp only [List.cons_append]
    rw [readChars.eq_def]
    simp [hne, he, hmore]
  | case9 c rest' hquote hslash hcontrol ih =>
    obtain ⟨⟨s', rest''⟩, hread, heq⟩ := Option.map_eq_some_iff.mp h
    cases heq
    have hmore := ih hread
    rw [List.cons_append, readChars.eq_def]
    simp [hquote, hslash, hcontrol, hmore]
  | case1 | case3 | case5 | case7 | case8 => cases h

theorem literal_eq_some {word : List Char} (h : literal word text = some rest) :
    text = word ++ rest := by
  obtain ⟨⟨tail, rfl⟩, heq⟩ := Option.ite_none_right_eq_some.mp h
  rw [← Option.some_inj.mp heq, List.drop_left]

theorem dropWhile_append_of_ne_nil (h : rest ≠ []) {p : Char → Bool}
    (hdrop : text.dropWhile p = rest) (more : List Char) :
    (text ++ more).takeWhile p = text.takeWhile p ∧ (text ++ more).dropWhile p = rest ++ more := by
  induction text with
  | nil => exact absurd hdrop.symm h
  | cons c text ih =>
    by_cases hc : p c = true
    · rw [List.dropWhile_cons_of_pos hc] at hdrop
      obtain ⟨htake, hdrop'⟩ := ih hdrop
      rw [List.cons_append, List.takeWhile_cons_of_pos hc, List.dropWhile_cons_of_pos hc, htake,
        List.takeWhile_cons_of_pos hc]
      exact ⟨rfl, hdrop'⟩
    · rw [List.dropWhile_cons_of_neg hc] at hdrop
      subst hdrop
      rw [List.cons_append, List.takeWhile_cons_of_neg hc, List.dropWhile_cons_of_neg hc,
        List.takeWhile_cons_of_neg hc]
      exact ⟨rfl, rfl⟩

/-- A reader that gets more fuel, and a text with more behind it, reads the same. -/
def Extends {α : Type} (read : ℕ → List Char → Option (α × List Char)) (fuel : ℕ)
    (closed : List Char → List Char → Prop) : Prop :=
  ∀ fuel' text a rest more, fuel ≤ fuel' → closed text rest → read fuel text = some (a, rest) →
    read fuel' (text ++ more) = some (a, rest ++ more)

/-- The value does not end in a number with which the text ends. -/
def Closed (text rest : List Char) : Prop := rest ≠ [] ∨ ∀ c ∈ text.head?, c.isDigit = false

theorem readValue_nil (fuel : ℕ) : readValue fuel [] = none := by
  cases fuel <;> rfl

/-- A text that does not start with the end of an array or an object does not do so with more behind
it, unless there is nothing of it. -/
theorem head_append_ne {c : Char} (hne : text ≠ []) (h : text.head? ≠ some c) (more : List Char) :
    (text ++ more).head? ≠ some c := by
  cases text with
  | nil => exact absurd rfl hne
  | cons c' text => exact h

section Extend

variable {fuel : ℕ} (hvalue : Extends readValue fuel Closed)
include hvalue

theorem extends_readItems (hitems : Extends readItems fuel fun _ _ => True) :
    Extends readItems (fuel + 1) fun _ _ => True := by
  intro fuel' text items rest more hle _ h
  obtain ⟨fuel', rfl⟩ := Nat.exists_eq_add_of_le' (Nat.lt_of_lt_of_le (Nat.succ_pos _) hle)
  replace hle := Nat.le_of_succ_le_succ hle
  simp only [readItems, Option.bind_eq_bind, Option.bind_eq_some_iff] at h ⊢
  obtain ⟨⟨item, rest₁⟩, hread, h⟩ := h
  cases rest₁ with
  | nil => simp at h
  | cons c rest₁ =>
    refine ⟨_, hvalue fuel' text item _ more hle (.inl (List.cons_ne_nil _ _)) hread, ?_⟩
    simp only [List.cons_append, List.head?_cons, List.tail_cons, Option.some.injEq] at h ⊢
    split_ifs at h ⊢
    · obtain ⟨⟨items', rest₂⟩, hread', heq⟩ := Option.bind_eq_some_iff.mp h
      cases heq
      rw [hitems fuel' rest₁ items' rest₂ more hle trivial hread']
      rfl
    · cases h
      rfl

theorem extends_readEntries (hentries : Extends readEntries fuel fun _ _ => True) :
    Extends readEntries (fuel + 1) fun _ _ => True := by
  intro fuel' text entries rest more hle _ h
  obtain ⟨fuel', rfl⟩ := Nat.exists_eq_add_of_le' (Nat.lt_of_lt_of_le (Nat.succ_pos _) hle)
  replace hle := Nat.le_of_succ_le_succ hle
  simp only [readEntries, Option.bind_eq_bind, Option.bind_eq_some_iff] at h ⊢
  obtain ⟨chars, hquote, ⟨name, rest₁⟩, hname, chars', hcolon, ⟨value, rest₂⟩, hread, h⟩ := h
  obtain rfl := literal_eq_some hquote
  obtain rfl := literal_eq_some hcolon
  cases rest₂ with
  | nil => simp at h
  | cons c rest₂ =>
    refine ⟨chars ++ more, by rw [List.append_assoc, literal_append],
      (name, [':'] ++ chars' ++ more), readChars_append hname more, chars' ++ more,
      by rw [List.append_assoc, literal_append], _,
      hvalue fuel' chars' value _ more hle (.inl (List.cons_ne_nil _ _)) hread, ?_⟩
    simp only [List.cons_append, List.head?_cons, List.tail_cons, Option.some.injEq] at h ⊢
    split_ifs at h ⊢
    · obtain ⟨⟨entries', rest₃⟩, hread', heq⟩ := Option.bind_eq_some_iff.mp h
      cases heq
      rw [hentries fuel' rest₂ entries' rest₃ more hle trivial hread']
      rfl
    · cases h
      rfl

end Extend

theorem extends_readValue {fuel : ℕ} (hitems : Extends readItems fuel fun _ _ => True)
    (hentries : Extends readEntries fuel fun _ _ => True) :
    Extends readValue (fuel + 1) Closed := by
  intro fuel' text j rest more hle hclosed h
  obtain ⟨fuel', rfl⟩ := Nat.exists_eq_add_of_le' (Nat.lt_of_lt_of_le (Nat.succ_pos _) hle)
  replace hle := Nat.le_of_succ_le_succ hle
  have hword : ∀ {word text : List Char} {value : Json},
      ((literal word text).map fun rest => (value, rest)) = some (j, rest) →
        ((literal word (text ++ more)).map fun rest => (value, rest)) = some (j, rest ++ more) := by
    intro word text value h
    obtain ⟨rest', hlit, heq⟩ := Option.map_eq_some_iff.mp h
    cases heq
    rw [literal_eq_some hlit, List.append_assoc, literal_append]
    rfl
  cases text with
  | nil => simp [readValue] at h
  | cons c text =>
    simp only [readValue, List.cons_append] at h ⊢
    split_ifs at h with h₁ h₂ h₃ h₄ h₅ h₆ h₇ h₈ h₉
    · rw [if_pos h₁]
      exact hword h
    · rw [if_neg h₁, if_pos h₂]
      exact hword h
    · rw [if_neg h₁, if_neg h₂, if_pos h₃]
      exact hword h
    · rw [if_neg h₁, if_neg h₂, if_neg h₃, if_pos h₄]
      obtain ⟨⟨s, rest'⟩, hread, heq⟩ := Option.map_eq_some_iff.mp h
      cases heq
      rw [readChars_append hread more]
      rfl
    · cases h
      obtain ⟨tail, rfl⟩ : ∃ tail, text = ']' :: tail := List.head?_eq_some_iff.mp h₆
      subst h₅
      simp
    · obtain ⟨⟨items, rest'⟩, hread, heq⟩ := Option.map_eq_some_iff.mp h
      cases heq
      have hne : text ≠ [] := by
        rintro rfl
        cases fuel <;> simp [readItems, readValue_nil] at hread
      rw [if_neg h₁, if_neg h₂, if_neg h₃, if_neg h₄, if_pos h₅,
        if_neg (head_append_ne hne h₆ more), hitems fuel' text items rest' more hle trivial hread]
      rfl
    · cases h
      obtain ⟨tail, rfl⟩ : ∃ tail, text = '\x7d' :: tail := List.head?_eq_some_iff.mp h₈
      subst h₇
      simp
    · obtain ⟨⟨entries, rest'⟩, hread, heq⟩ := Option.map_eq_some_iff.mp h
      cases heq
      have hne : text ≠ [] := by
        rintro rfl
        cases fuel <;> simp [readEntries, literal] at hread
      rw [if_neg h₁, if_neg h₂, if_neg h₃, if_neg h₄, if_neg h₅, if_pos h₇,
        if_neg (head_append_ne hne h₈ more),
        hentries fuel' text entries rest' more hle trivial hread]
      rfl
    · have hrest : rest ≠ [] := by
        rcases hclosed with hrest | hdigit
        · exact hrest
        · rw [hdigit c rfl] at h₉
          cases h₉
      obtain ⟨rfl, hdrop⟩ := Prod.mk.inj (Option.some_inj.mp h)
      obtain ⟨htake, hdrop'⟩ := dropWhile_append_of_ne_nil hrest hdrop more
      rw [List.cons_append] at htake hdrop'
      rw [if_neg h₁, if_neg h₂, if_neg h₃, if_neg h₄, if_neg h₅, if_neg h₇, if_pos h₉, readNat,
        htake, hdrop']

theorem readers_extend (fuel : ℕ) : Extends readValue fuel Closed ∧
    Extends readItems fuel (fun _ _ => True) ∧ Extends readEntries fuel fun _ _ => True := by
  induction fuel with
  | zero =>
    refine ⟨?_, ?_, ?_⟩
    · intro fuel' text j rest more _ _ h
      simp [readValue] at h
    · intro fuel' text j rest more _ _ h
      simp [readItems] at h
    · intro fuel' text j rest more _ _ h
      simp [readEntries] at h
  | succ fuel ih =>
    obtain ⟨hvalue, hitems, hentries⟩ := ih
    exact ⟨extends_readValue hitems hentries, extends_readItems hvalue hitems,
      extends_readEntries hvalue hentries⟩

/-- A text of an array or an object that is cut short is not read. -/
theorem read_cut {entries : List (String × Json)} (h : Plain depth (.object entries))
    (hpre : text <+: write (.object entries)) (hne : text ≠ write (.object entries)) :
    read text = none := by
  obtain ⟨more, hmore⟩ := hpre
  have hmore' : more ≠ [] := by
    rintro rfl
    exact hne (by rw [← hmore, List.append_nil])
  unfold read
  split
  · rename_i j hread
    exfalso
    have hclosed : Closed text [] := by
      right
      intro c hc
      cases text with
      | nil => cases hc
      | cons c' text =>
        cases hc
        rw [write, writeObject, List.cons_append] at hmore
        obtain rfl : c = '\x7b' := (List.cons.inj hmore).1
        decide
    have hlen : text.length ≤ (write (.object entries)).length := by
      rw [← hmore, List.length_append]
      omega
    have hwhole := h.readBack (write (.object entries)).length [] le_rfl
      (fun _ h => by cases h)
    have hpart := (readers_extend text.length).1 _ text j [] more hlen hclosed hread
    rw [List.append_nil] at hwhole
    rw [hmore, hwhole] at hpart
    exact hmore' (Prod.mk.inj (Option.some_inj.mp hpart)).2.symm
  · rfl

end Json

end Agentd
