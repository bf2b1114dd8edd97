import Mandelbot.Library.Json
import Mandelbot.Library.Numeral

/-!
# JSON texts

The text of a value and its reader. A text reads back to the value that it was written from, so
different values have different texts.
-/

namespace Mandelbot

/-- A format of numbers in which a text reads back to its number. -/
class NumberFormat (ν : Type) where
  isZero : ν → Bool
  text : ν → List Char
  read : List Char → Option ν
  text_ne_nil : ∀ n, text n ≠ []
  text_chars : ∀ n, ∀ c ∈ text n, (c.isDigit || c ∈ ['-', '+', '.', 'e', 'E']) = true
  read_text : ∀ n, read (text n) = some n

/-- The characters of a number. -/
def isNumberChar (c : Char) : Bool := c.isDigit || c ∈ ['-', '+', '.', 'e', 'E']

variable {ν : Type}

section Texts

/-- The characters of a string that JSON escapes. -/
def escape (c : Char) : List Char :=
  if c = '"' then ['\\', '"']
  else if c = '\\' then ['\\', '\\']
  else if c = '\x08' then ['\\', 'b']
  else if c = '\t' then ['\\', 't']
  else if c = '\n' then ['\\', 'n']
  else if c = '\x0c' then ['\\', 'f']
  else if c = '\r' then ['\\', 'r']
  else if c.toNat < 32 then
    ['\\', 'u', '0', '0', Nat.digitChar (c.toNat / 16), Nat.digitChar (c.toNat % 16)]
  else [c]

def writeString (s : String) : List Char := '"' :: (s.toList.flatMap escape ++ ['"'])

variable [NumberFormat ν]

mutual

def Json.write : Json ν → List Char
  | .null => ['n', 'u', 'l', 'l']
  | .bool true => ['t', 'r', 'u', 'e']
  | .bool false => ['f', 'a', 'l', 's', 'e']
  | .num n => NumberFormat.text n
  | .str s => writeString s
  | .arr [] => ['[', ']']
  | .arr (v :: items) => '[' :: (v.write ++ Json.writeItems items)
  | .obj [] => ['{', '}']
  | .obj ((key, v) :: props) =>
      '{' :: (writeString key ++ ':' :: (v.write ++ Json.writeProps props))

def Json.writeItems : List (Json ν) → List Char
  | [] => [']']
  | v :: items => ',' :: (v.write ++ Json.writeItems items)

def Json.writeProps : List (String × Json ν) → List Char
  | [] => ['}']
  | (key, v) :: props => ',' :: (writeString key ++ ':' :: (v.write ++ Json.writeProps props))

end

/-- `JSON.stringify`. -/
def stringify (v : Js ν) : String := String.ofList v.val.write

def skipSpace (cs : List Char) : List Char :=
  cs.dropWhile fun c => c ∈ [' ', '\t', '\n', '\r']

/-- The character of a `\u` escape; half of a surrogate pair is not one. -/
def unicode (a b c d : Char) : Option Char := do
  let n := (((← hexDigit a) * 16 + (← hexDigit b)) * 16 + (← hexDigit c)) * 16 + (← hexDigit d)
  if n.isValidChar then some (Char.ofNat n) else none

def unescape (c : Char) : Option Char :=
  if c = '"' ∨ c = '\\' ∨ c = '/' then some c
  else if c = 'b' then some '\x08'
  else if c = 't' then some '\t'
  else if c = 'n' then some '\n'
  else if c = 'f' then some '\x0c'
  else if c = 'r' then some '\r'
  else none

/-- The rest of a string after its opening quote. -/
def readString : List Char → Option (List Char × List Char)
  | [] => none
  | c :: cs =>
      if c = '"' then some ([], cs)
      else if c = '\\' then
        match cs with
        | [] => none
        | e :: cs =>
            if e = 'u' then
              match cs with
              | a :: b :: c :: d :: cs => do
                  let ch ← unicode a b c d
                  (readString cs).map fun p => (ch :: p.1, p.2)
              | _ => none
            else do
              let ch ← unescape e
              (readString cs).map fun p => (ch :: p.1, p.2)
      else if c.toNat < 32 then none
      else (readString cs).map fun p => (c :: p.1, p.2)

def readNumber (cs : List Char) : Option (Js ν × List Char) :=
  (NumberFormat.read (cs.takeWhile isNumberChar)).map fun n =>
    (Js.num n, cs.dropWhile isNumberChar)

/-- A key with the colon after it. -/
def readKey (cs : List Char) : Option (String × List Char) :=
  match skipSpace cs with
  | [] => none
  | c :: cs =>
      if c = '"' then
        match readString cs with
        | some (key, cs) =>
            match skipSpace cs with
            | [] => none
            | c :: cs => if c = ':' then some (String.ofList key, cs) else none
        | none => none
      else none

mutual

/-- A value and what follows it; the fuel bounds the length of its text. -/
def readValue : ℕ → List Char → Option (Js ν × List Char)
  | 0, _ => none
  | fuel + 1, cs =>
      match skipSpace cs with
      | [] => none
      | c :: cs =>
          if c = '"' then (readString cs).map fun p => (Js.str (String.ofList p.1), p.2)
          else if c = '[' then
            match skipSpace cs with
            | [] => none
            | c' :: cs' =>
                if c' = ']' then some (Js.arr [], cs')
                else do
                  let (v, cs) ← readValue fuel cs
                  let (items, cs) ← readItems fuel cs
                  some (Js.arr (v :: items), cs)
          else if c = '{' then
            match skipSpace cs with
            | [] => none
            | c' :: cs' =>
                if c' = '}' then some (Obj.empty.toJs, cs')
                else do
                  let (key, cs) ← readKey cs
                  let (v, cs) ← readValue fuel cs
                  let (o, cs) ← readProps fuel (Obj.empty.set key v) cs
                  some (o.toJs, cs)
          else if isNumberChar c then readNumber (c :: cs)
          else if c = 'n' ∧ cs.take 3 = ['u', 'l', 'l'] then some (Js.null, cs.drop 3)
          else if c = 't' ∧ cs.take 3 = ['r', 'u', 'e'] then some (Js.bool true, cs.drop 3)
          else if c = 'f' ∧ cs.take 4 = ['a', 'l', 's', 'e'] then
            some (Js.bool false, cs.drop 4)
          else none

def readItems : ℕ → List Char → Option (List (Js ν) × List Char)
  | 0, _ => none
  | fuel + 1, cs =>
      match skipSpace cs with
      | [] => none
      | c :: cs =>
          if c = ']' then some ([], cs)
          else if c = ',' then do
            let (v, cs) ← readValue fuel cs
            let (items, cs) ← readItems fuel cs
            some (v :: items, cs)
          else none

/-- Properties are set one after the other. -/
def readProps : ℕ → Obj ν → List Char → Option (Obj ν × List Char)
  | 0, _, _ => none
  | fuel + 1, o, cs =>
      match skipSpace cs with
      | [] => none
      | c :: cs =>
          if c = '}' then some (o, cs)
          else if c = ',' then do
            let (key, cs) ← readKey cs
            let (v, cs) ← readValue fuel cs
            readProps fuel (o.set key v) cs
          else none

end

/-- `JSON.parse`. -/
def parse (text : String) : Option (Js ν) :=
  match readValue (text.toList.length + 1) text.toList with
  | some (v, cs) => if skipSpace cs = [] then some v else none
  | none => none

end Texts

section Strings

private theorem unicode_control {c : Char} (h : c.toNat < 32) :
    unicode '0' '0' (Nat.digitChar (c.toNat / 16)) (Nat.digitChar (c.toNat % 16)) = some c := by
  have hzero : hexDigit '0' = some 0 := by decide
  have hhigh := hexDigit_digitChar (c.toNat / 16) (by omega)
  have hlow := hexDigit_digitChar (c.toNat % 16) (by omega)
  have hvalue : ((0 * 16 + 0) * 16 + c.toNat / 16) * 16 + c.toNat % 16 = c.toNat := by omega
  have hvalid : c.toNat.isValidChar := .inl (by omega)
  simp only [unicode, hzero, hhigh, hlow, Option.bind_eq_bind, Option.bind_some, hvalue,
    if_pos hvalid, Char.ofNat_toNat]

private theorem readString_quote (cs : List Char) : readString ('"' :: cs) = some ([], cs) := by
  rw [readString.eq_def]
  simp

private theorem readString_short {e c : Char} (he : e ≠ 'u') (hc : unescape e = some c)
    (cs : List Char) :
    readString ('\\' :: e :: cs) = (readString cs).map fun p => (c :: p.1, p.2) := by
  rw [readString.eq_def]
  simp [he, hc]

private theorem readString_unicode {a b c d ch : Char} (h : unicode a b c d = some ch)
    (cs : List Char) : readString ('\\' :: 'u' :: a :: b :: c :: d :: cs) =
      (readString cs).map fun p => (ch :: p.1, p.2) := by
  rw [readString.eq_def]
  simp [h]

private theorem readString_plain {c : Char} (hquote : c ≠ '"') (hslash : c ≠ '\\')
    (hcontrol : ¬ c.toNat < 32) (cs : List Char) :
    readString (c :: cs) = (readString cs).map fun p => (c :: p.1, p.2) := by
  rw [readString.eq_def]
  simp only [if_neg hquote, if_neg hslash, if_neg hcontrol]

/-- An escaped character reads back to the character. -/
private theorem readString_escape (c : Char) (cs : List Char) :
    readString (escape c ++ cs) = (readString cs).map fun p => (c :: p.1, p.2) := by
  rw [escape]
  split
  · rename_i h
    exact readString_short (by decide) (by rw [h]; decide) cs
  split
  · rename_i h
    exact readString_short (by decide) (by rw [h]; decide) cs
  split
  · rename_i h
    exact readString_short (by decide) (by rw [h]; decide) cs
  split
  · rename_i h
    exact readString_short (by decide) (by rw [h]; decide) cs
  split
  · rename_i h
    exact readString_short (by decide) (by rw [h]; decide) cs
  split
  · rename_i h
    exact readString_short (by decide) (by rw [h]; decide) cs
  split
  · rename_i h
    exact readString_short (by decide) (by rw [h]; decide) cs
  split
  · rename_i h
    exact readString_unicode (unicode_control h) cs
  · rename_i hquote hslash _ _ _ _ _ hcontrol
    exact readString_plain hquote hslash hcontrol cs

private theorem readString_write (cs rest : List Char) :
    readString (cs.flatMap escape ++ '"' :: rest) = some (cs, rest) := by
  induction cs with
  | nil => exact readString_quote rest
  | cons c cs ih =>
      rw [List.flatMap_cons, List.append_assoc, readString_escape, ih]
      rfl

private theorem skipSpace_cons {c : Char} (h : c ∉ [' ', '\t', '\n', '\r']) (cs : List Char) :
    skipSpace (c :: cs) = c :: cs := by
  rw [skipSpace, List.dropWhile_cons_of_neg (by simpa using h)]

private theorem readKey_write (key : String) (rest : List Char) :
    readKey (writeString key ++ ':' :: rest) = some (key, rest) := by
  have htext : writeString key ++ ':' :: rest =
      '"' :: (key.toList.flatMap escape ++ '"' :: ':' :: rest) := by
    simp [writeString]
  have hcolon : skipSpace (':' :: rest) = ':' :: rest := skipSpace_cons (by decide) rest
  rw [htext, readKey, skipSpace_cons (by decide)]
  simp only [if_pos, readString_write, hcolon, String.ofList_toList]

end Strings

section Values

variable [NumberFormat ν]

/-- What follows a number does not continue it. -/
private def NumberEnds (rest : List Char) : Prop := ∀ c ∈ rest.head?, isNumberChar c = false

private theorem numberEnds_cons {c : Char} (h : isNumberChar c = false) (rest : List Char) :
    NumberEnds (c :: rest) := by
  intro c' hc
  obtain rfl : c = c' := by simpa using hc
  exact h

private theorem readNumber_text (n : ν) {rest : List Char} (h : NumberEnds rest) :
    readNumber (NumberFormat.text n ++ rest) = some (Js.num n, rest) := by
  have hall : ∀ c ∈ NumberFormat.text n, isNumberChar c = true := NumberFormat.text_chars n
  have htake : rest.takeWhile isNumberChar = [] ∧ rest.dropWhile isNumberChar = rest := by
    cases rest with
    | nil => exact ⟨rfl, rfl⟩
    | cons c rest =>
        have hc : ¬ isNumberChar c = true := by simpa using h c (by simp)
        exact ⟨List.takeWhile_cons_of_neg hc, List.dropWhile_cons_of_neg hc⟩
  rw [readNumber, List.takeWhile_append_of_pos hall, List.dropWhile_append_of_pos hall, htake.1,
    htake.2, List.append_nil, NumberFormat.read_text]
  rfl

private theorem numberChar_ne {c : Char} (h : isNumberChar c = true) :
    c ∉ [' ', '\t', '\n', '\r'] ∧ c ≠ '"' ∧ c ≠ '[' ∧ c ≠ '{' := by
  refine ⟨?_, ?_, ?_, ?_⟩
  · intro hmem
    simp only [List.mem_cons, List.not_mem_nil, or_false] at hmem
    rcases hmem with rfl | rfl | rfl | rfl
    · revert h; decide
    · revert h; decide
    · revert h; decide
    · revert h; decide
  · rintro rfl
    revert h
    decide
  · rintro rfl
    revert h
    decide
  · rintro rfl
    revert h
    decide

private theorem readValue_number {c : Char} (h : isNumberChar c = true) (fuel : ℕ)
    (cs : List Char) : (readValue (fuel + 1) (c :: cs) : Option (Js ν × List Char)) =
      readNumber (c :: cs) := by
  obtain ⟨hspace, hquote, hbracket, hbrace⟩ := numberChar_ne h
  rw [readValue.eq_def]
  simp only [skipSpace_cons hspace, if_neg hquote, if_neg hbracket, if_neg hbrace, if_pos h]

private theorem readValue_string (fuel : ℕ) (cs : List Char) :
    (readValue (fuel + 1) ('"' :: cs) : Option (Js ν × List Char)) =
      (readString cs).map fun p => (Js.str (String.ofList p.1), p.2) := by
  rw [readValue.eq_def]
  simp only [skipSpace_cons (show '"' ∉ [' ', '\t', '\n', '\r'] by decide), if_pos]

private theorem readValue_emptyItems (fuel : ℕ) (cs : List Char) :
    (readValue (fuel + 1) ('[' :: ']' :: cs) : Option (Js ν × List Char)) =
      some (Js.arr [], cs) := by
  have houter : skipSpace ('[' :: ']' :: cs) = '[' :: ']' :: cs := skipSpace_cons (by decide) _
  have hinner : skipSpace (']' :: cs) = ']' :: cs := skipSpace_cons (by decide) cs
  rw [readValue.eq_def]
  simp [houter, hinner]

private theorem readValue_emptyProps (fuel : ℕ) (cs : List Char) :
    (readValue (fuel + 1) ('{' :: '}' :: cs) : Option (Js ν × List Char)) =
      some (Obj.empty.toJs, cs) := by
  have houter : skipSpace ('{' :: '}' :: cs) = '{' :: '}' :: cs := skipSpace_cons (by decide) _
  have hinner : skipSpace ('}' :: cs) = '}' :: cs := skipSpace_cons (by decide) cs
  rw [readValue.eq_def]
  simp [houter, hinner]

private theorem readValue_items {c : Char} (hspace : c ∉ [' ', '\t', '\n', '\r']) (hc : c ≠ ']')
    (fuel : ℕ) (cs : List Char) {v : Js ν} {items : List (Js ν)} {rest rest' : List Char}
    (hv : readValue fuel (c :: cs) = some (v, rest))
    (hitems : readItems fuel rest = some (items, rest')) :
    readValue (fuel + 1) ('[' :: c :: cs) = some (Js.arr (v :: items), rest') := by
  have houter : skipSpace ('[' :: c :: cs) = '[' :: c :: cs := skipSpace_cons (by decide) _
  rw [readValue.eq_def]
  simp [houter, skipSpace_cons hspace, hc, hv, hitems]

private theorem readValue_props (fuel : ℕ) {cs : List Char} {key : String} {v : Js ν} {o : Obj ν}
    {rest rest' rest'' : List Char} (hkey : readKey ('"' :: cs) = some (key, rest))
    (hv : readValue fuel rest = some (v, rest'))
    (hprops : readProps fuel (Obj.empty.set key v) rest' = some (o, rest'')) :
    readValue (fuel + 1) ('{' :: '"' :: cs) = some (o.toJs, rest'') := by
  have houter : skipSpace ('{' :: '"' :: cs) = '{' :: '"' :: cs := skipSpace_cons (by decide) _
  have hinner : skipSpace ('"' :: cs) = '"' :: cs := skipSpace_cons (by decide) cs
  rw [readValue.eq_def]
  simp [houter, hinner, hkey, hv, hprops]

private theorem readItems_end (fuel : ℕ) (cs : List Char) :
    (readItems (fuel + 1) (']' :: cs) : Option (List (Js ν) × List Char)) = some ([], cs) := by
  have hskip : skipSpace (']' :: cs) = ']' :: cs := skipSpace_cons (by decide) cs
  rw [readItems.eq_def]
  simp [hskip]

private theorem readItems_next (fuel : ℕ) {cs : List Char} {v : Js ν} {items : List (Js ν)}
    {rest rest' : List Char} (hv : readValue fuel cs = some (v, rest))
    (hitems : readItems fuel rest = some (items, rest')) :
    readItems (fuel + 1) (',' :: cs) = some (v :: items, rest') := by
  have hskip : skipSpace (',' :: cs) = ',' :: cs := skipSpace_cons (by decide) cs
  rw [readItems.eq_def]
  simp [hskip, hv, hitems]

private theorem readProps_end (fuel : ℕ) (o : Obj ν) (cs : List Char) :
    readProps (fuel + 1) o ('}' :: cs) = some (o, cs) := by
  have hskip : skipSpace ('}' :: cs) = '}' :: cs := skipSpace_cons (by decide) cs
  rw [readProps.eq_def]
  simp [hskip]

private theorem readProps_next (fuel : ℕ) {cs : List Char} {key : String} {v : Js ν} {o o' : Obj ν}
    {rest rest' rest'' : List Char} (hkey : readKey cs = some (key, rest))
    (hv : readValue fuel rest = some (v, rest'))
    (hprops : readProps fuel (o.set key v) rest' = some (o', rest'')) :
    readProps (fuel + 1) o (',' :: cs) = some (o', rest'') := by
  have hskip : skipSpace (',' :: cs) = ',' :: cs := skipSpace_cons (by decide) cs
  rw [readProps.eq_def]
  simp [hskip, hkey, hv, hprops]

/-- A text starts with a character that neither is space nor closes an array. -/
private theorem write_eq_cons (v : Json ν) :
    ∃ c cs, v.write = c :: cs ∧ c ∉ [' ', '\t', '\n', '\r'] ∧ c ≠ ']' := by
  cases v with
  | null => exact ⟨'n', _, by rw [Json.write], by decide, by decide⟩
  | bool b =>
      cases b with
      | true => exact ⟨'t', _, by rw [Json.write], by decide, by decide⟩
      | false => exact ⟨'f', _, by rw [Json.write], by decide, by decide⟩
  | num n =>
      rw [Json.write]
      cases htext : NumberFormat.text n with
      | nil => exact absurd htext (NumberFormat.text_ne_nil n)
      | cons c cs =>
          have hc : isNumberChar c = true := NumberFormat.text_chars n c (by simp [htext])
          refine ⟨c, cs, rfl, (numberChar_ne hc).1, ?_⟩
          rintro rfl
          revert hc
          decide
  | str s => exact ⟨'"', _, by rw [Json.write, writeString], by decide, by decide⟩
  | arr items =>
      cases items with
      | nil => exact ⟨'[', _, by rw [Json.write], by decide, by decide⟩
      | cons v items => exact ⟨'[', _, by rw [Json.write], by decide, by decide⟩
  | obj props =>
      cases props with
      | nil => exact ⟨'{', _, by rw [Json.write], by decide, by decide⟩
      | cons p props => exact ⟨'{', _, by rw [Json.write], by decide, by decide⟩

private theorem numberEnds_writeItems (items : List (Json ν)) (rest : List Char) :
    NumberEnds (Json.writeItems items ++ rest) := by
  cases items with
  | nil =>
      rw [Json.writeItems]
      exact numberEnds_cons (by decide) _
  | cons v items =>
      rw [Json.writeItems]
      exact numberEnds_cons (by decide) _

private theorem numberEnds_writeProps (props : List (String × Json ν)) (rest : List Char) :
    NumberEnds (Json.writeProps props ++ rest) := by
  cases props with
  | nil =>
      rw [Json.writeProps]
      exact numberEnds_cons (by decide) _
  | cons p props =>
      rw [Json.writeProps]
      exact numberEnds_cons (by decide) _

private def ValuesRead (ν : Type) [NumberFormat ν] (fuel : ℕ) : Prop :=
  ∀ (v : Json ν) (h : v.WellFormed) (rest : List Char), v.write.length < fuel → NumberEnds rest →
    readValue fuel (v.write ++ rest) = some (⟨v, h⟩, rest)

private def ItemsRead (ν : Type) [NumberFormat ν] (fuel : ℕ) : Prop :=
  ∀ (items : List (Json ν)), Json.ItemsWellFormed items → ∀ rest : List Char,
    (Json.writeItems items).length < fuel → ∃ vs : List (Js ν),
      readItems fuel (Json.writeItems items ++ rest) = some (vs, rest) ∧
        vs.map Subtype.val = items

private def PropsRead (ν : Type) [NumberFormat ν] (fuel : ℕ) : Prop :=
  ∀ (props : List (String × Json ν)), Json.PropsWellFormed props → ∀ (o : Obj ν) (rest : List Char),
    Ordered (o.props ++ props) → (Json.writeProps props).length < fuel → ∃ o' : Obj ν,
      readProps fuel o (Json.writeProps props ++ rest) = some (o', rest) ∧
        o'.props = o.props ++ props

variable {fuel : ℕ}

omit [NumberFormat ν] in
/-- A property after all those of an object is put at its end. -/
private theorem props_set {o : Obj ν} {key : String} {v : Js ν} {props : List (String × Json ν)}
    (h : Ordered (o.props ++ (key, v.val) :: props)) :
    (o.set key v).props = o.props ++ [(key, v.val)] := by
  apply setProp_of_precedes
  intro p hp
  exact (List.pairwise_append.mp h).2.2 p hp (key, v.val) List.mem_cons_self

private theorem readProps_from (hvalues : ValuesRead ν fuel) (hprops : PropsRead ν fuel) {o : Obj ν}
    {key : String} {w : Json ν} {props : List (String × Json ν)} (rest : List Char)
    (hw : w.WellFormed) (hwell : Json.PropsWellFormed props)
    (hordered : Ordered (o.props ++ (key, w) :: props))
    (hlen : w.write.length + (Json.writeProps props).length < fuel) :
    ∃ o' : Obj ν, readValue fuel (w.write ++ (Json.writeProps props ++ rest)) =
        some (⟨w, hw⟩, Json.writeProps props ++ rest) ∧
      readProps fuel (o.set key ⟨w, hw⟩) (Json.writeProps props ++ rest) = some (o', rest) ∧
      o'.props = o.props ++ (key, w) :: props := by
  have hset : (o.set key ⟨w, hw⟩).props = o.props ++ [(key, w)] := props_set hordered
  have hsplit : o.props ++ (key, w) :: props = (o.set key ⟨w, hw⟩).props ++ props := by
    rw [hset, List.append_assoc]
    rfl
  have hread := hvalues w hw (Json.writeProps props ++ rest) (by omega)
    (numberEnds_writeProps props rest)
  obtain ⟨o', hrest, ho'⟩ := hprops props hwell (o.set key ⟨w, hw⟩) rest (hsplit ▸ hordered)
    (by omega)
  exact ⟨o', hread, hrest, ho'.trans hsplit.symm⟩

private theorem itemsRead_succ (hvalues : ValuesRead ν fuel) (hitems : ItemsRead ν fuel) :
    ItemsRead ν (fuel + 1) := by
  intro items hwell rest hlen
  cases items with
  | nil =>
      rw [Json.writeItems]
      exact ⟨[], readItems_end fuel rest, rfl⟩
  | cons w items =>
      rw [Json.ItemsWellFormed] at hwell
      rw [Json.writeItems] at hlen ⊢
      simp only [List.length_cons, List.length_append] at hlen
      obtain ⟨vs, hread, hvs⟩ := hitems items hwell.2 rest (by omega)
      have hw := hvalues w hwell.1 (Json.writeItems items ++ rest) (by omega)
        (numberEnds_writeItems items rest)
      refine ⟨⟨w, hwell.1⟩ :: vs, ?_, by simp [hvs]⟩
      have hnext := readItems_next fuel hw hread
      simpa only [List.cons_append, List.append_assoc] using hnext

private theorem propsRead_succ (hvalues : ValuesRead ν fuel) (hprops : PropsRead ν fuel) :
    PropsRead ν (fuel + 1) := by
  intro props hwell o rest hordered hlen
  cases props with
  | nil =>
      rw [Json.writeProps]
      exact ⟨o, readProps_end fuel o rest, by simp⟩
  | cons p props =>
      obtain ⟨key, w⟩ := p
      rw [Json.PropsWellFormed] at hwell
      rw [Json.writeProps] at hlen ⊢
      simp only [List.length_cons, List.length_append] at hlen
      obtain ⟨o', hread, hrest, ho'⟩ := readProps_from hvalues hprops rest hwell.1 hwell.2
        hordered (by omega)
      refine ⟨o', ?_, ho'⟩
      have hnext := readProps_next fuel (readKey_write key _) hread hrest
      simpa only [List.cons_append, List.append_assoc] using hnext

private theorem valuesRead_succ (hvalues : ValuesRead ν fuel) (hitems : ItemsRead ν fuel)
    (hprops : PropsRead ν fuel) : ValuesRead ν (fuel + 1) := by
  intro v hwell rest hlen hends
  cases v with
  | null =>
      rw [Json.write, readValue.eq_def]
      simp [skipSpace, isNumberChar]
      rfl
  | bool b =>
      cases b with
      | true =>
          rw [Json.write, readValue.eq_def]
          simp [skipSpace, isNumberChar]
          rfl
      | false =>
          rw [Json.write, readValue.eq_def]
          simp [skipSpace, isNumberChar]
          rfl
  | num n =>
      have hnumber : readNumber (NumberFormat.text n ++ rest) = some (Js.num n, rest) :=
        readNumber_text n hends
      obtain ⟨c, cs, htext, _, _⟩ := write_eq_cons (Json.num n)
      rw [Json.write] at htext ⊢
      have hc : isNumberChar c = true := NumberFormat.text_chars n c (by simp [htext])
      rw [htext] at hnumber ⊢
      exact (readValue_number hc fuel (cs ++ rest)).trans hnumber
  | str s =>
      have htext : writeString s ++ rest = '"' :: (s.toList.flatMap escape ++ '"' :: rest) := by
        simp [writeString]
      rw [Json.write, htext, readValue_string, readString_write]
      simp only [Option.map_some, String.ofList_toList]
      rfl
  | arr items =>
      cases items with
      | nil =>
          rw [Json.write]
          exact readValue_emptyItems fuel rest
      | cons w items =>
          have hparts := hwell
          rw [Json.WellFormed, Json.ItemsWellFormed] at hparts
          rw [Json.write] at hlen ⊢
          simp only [List.length_cons, List.length_append] at hlen
          obtain ⟨vs, hread, hvs⟩ := hitems items hparts.2 rest (by omega)
          have hw := hvalues w hparts.1 (Json.writeItems items ++ rest) (by omega)
            (numberEnds_writeItems items rest)
          obtain ⟨c, cs, htext, hspace, hc⟩ := write_eq_cons w
          have hvalue : Js.arr (⟨w, hparts.1⟩ :: vs) = ⟨Json.arr (w :: items), hwell⟩ :=
            Subtype.ext (congrArg (fun items => Json.arr (w :: items)) hvs)
          rw [htext, List.cons_append] at hw
          rw [htext, List.cons_append, List.cons_append, List.cons_append, List.append_assoc,
            readValue_items hspace hc fuel _ hw hread, hvalue]
  | obj props =>
      cases props with
      | nil =>
          rw [Json.write]
          exact readValue_emptyProps fuel rest
      | cons p props =>
          obtain ⟨key, w⟩ := p
          have hparts := hwell
          rw [Json.WellFormed, Json.PropsWellFormed] at hparts
          rw [Json.write] at hlen ⊢
          simp only [List.length_cons, List.length_append] at hlen
          obtain ⟨o', hread, hrest, ho'⟩ := readProps_from (o := Obj.empty) hvalues hprops
            rest hparts.2.1 hparts.2.2 hparts.1 (by omega)
          have hvalue : o'.toJs = ⟨Json.obj ((key, w) :: props), hwell⟩ :=
            Subtype.ext (congrArg Json.obj ho')
          have hkey := readKey_write key (w.write ++ (Json.writeProps props ++ rest))
          have htext : ('{' :: (writeString key ++ ':' :: (w.write ++ Json.writeProps props))) ++
              rest = '{' :: (writeString key ++ ':' :: (w.write ++ (Json.writeProps props ++ rest))) := by
            simp only [List.cons_append, List.append_assoc]
          have hquote : ∃ cs, writeString key ++ ':' :: (w.write ++ (Json.writeProps props ++ rest)) =
              '"' :: cs := ⟨_, rfl⟩
          obtain ⟨cs, hcs⟩ := hquote
          rw [hcs] at hkey
          rw [htext, hcs, readValue_props fuel hkey hread hrest, hvalue]

/-- What is written reads back, with any fuel above the length of the text. -/
private theorem read_write (fuel : ℕ) :
    ValuesRead ν fuel ∧ ItemsRead ν fuel ∧ PropsRead ν fuel := by
  induction fuel with
  | zero =>
      exact ⟨fun _ _ _ h => absurd h (by omega), fun _ _ _ h => absurd h (by omega),
        fun _ _ _ _ _ h => absurd h (by omega)⟩
  | succ fuel ih =>
      obtain ⟨hvalues, hitems, hprops⟩ := ih
      exact ⟨valuesRead_succ hvalues hitems hprops, itemsRead_succ hvalues hitems,
        propsRead_succ hvalues hprops⟩

/-- A text reads back to the value that it was written from. -/
@[simp] theorem parse_stringify (v : Js ν) : parse (stringify v) = some v := by
  have hread := (read_write (v.val.write.length + 1)).1 v.val v.property [] (by omega) nofun
  rw [List.append_nil] at hread
  rw [parse, stringify, String.toList_ofList, hread]
  rfl

theorem stringify_injective {v w : Js ν} (h : stringify v = stringify w) : v = w := by
  have hparse : parse (stringify v) = (parse (stringify w) : Option (Js ν)) := congrArg parse h
  rw [parse_stringify, parse_stringify] at hparse
  exact Option.some.inj hparse

end Values

section Naturals

/-- Natural numbers in decimal, without leading zeros. -/
instance : NumberFormat ℕ where
  isZero n := n = 0
  text n := Nat.toDigits 10 n
  read cs :=
    let n := Nat.ofDigitChars 10 cs 0
    if Nat.toDigits 10 n = cs then some n else none
  text_ne_nil _ := Nat.toDigits_ne_nil
  text_chars n c hc := by
    have hdigit : c.isDigit = true := Nat.isDigit_of_mem_toDigits (by omega) (by omega) hc
    rw [hdigit, Bool.true_or]
  read_text n := by simp [Nat.ofDigitChars_ten_toDigits]

end Naturals

end Mandelbot
