import Mandelbot.Library.Numeral
import Mathlib.Tactic.Common

/-!
# Query strings

Percent-encoding as a browser does it, and the reading of a query string as a Go server does it.
What is encoded arrives as the UTF-8 bytes of the text, whatever the text is.
-/

namespace Mandelbot

/-- The characters that `encodeURIComponent` leaves as they are. -/
def isUnreserved (c : Char) : Bool :=
  c.isAlphanum || c ∈ ['-', '_', '.', '!', '~', '*', Char.ofNat 39, '(', ')']

def percentByte (b : UInt8) : List Char :=
  ['%', (Nat.digitChar (b.toNat / 16)).toUpper, (Nat.digitChar (b.toNat % 16)).toUpper]

def encodeChar (c : Char) : List Char :=
  if isUnreserved c then [c] else (String.utf8EncodeChar c).flatMap percentByte

def encodeURIComponent (text : List Char) : List Char := text.flatMap encodeChar

/-- The bytes of a text. -/
def utf8 (text : List Char) : List UInt8 := text.flatMap String.utf8EncodeChar

/-- Go's `url.QueryUnescape`. -/
def queryUnescape : List Char → Option (List UInt8)
  | [] => some []
  | c :: cs =>
      if c = '%' then
        match cs with
        | a :: b :: cs => do
            let n := (← hexDigit a) * 16 + (← hexDigit b)
            (queryUnescape cs).map fun bytes => UInt8.ofNat n :: bytes
        | _ => none
      else if c = '+' then (queryUnescape cs).map fun bytes => 32 :: bytes
      else (queryUnescape cs).map fun bytes => String.utf8EncodeChar c ++ bytes

/-- The key and the value of a segment, around its first `=`. -/
def cutSegment (segment : List Char) : Option (List UInt8 × List UInt8) := do
  let key ← queryUnescape (segment.takeWhile (· ≠ '='))
  let value ← queryUnescape ((segment.dropWhile (· ≠ '=')).drop 1)
  return (key, value)

/-- Segments that are empty are passed over. -/
def segments (query : List Char) : List (List Char) := (query.splitOn '&').filter (· ≠ [])

/-- Go's `url.ParseQuery`, with the pairs in order; a semicolon is an error. -/
def parseQuery (query : List Char) : Option (List (List UInt8 × List UInt8)) :=
  (segments query).mapM fun segment => if ';' ∈ segment then none else cutSegment segment

section Encoding

private theorem queryUnescape_percentByte (b : UInt8) (cs : List Char) :
    queryUnescape (percentByte b ++ cs) = (queryUnescape cs).map fun bytes => b :: bytes := by
  have hlt : b.toNat < 256 := UInt8.toNat_lt_size b
  have hhigh := hexDigit_upper (b.toNat / 16) (by omega)
  have hlow := hexDigit_upper (b.toNat % 16) (by omega)
  have hvalue : b.toNat / 16 * 16 + b.toNat % 16 = b.toNat := by omega
  rw [percentByte, List.cons_append, queryUnescape.eq_def]
  simp only [if_pos, List.cons_append, List.nil_append, hhigh, hlow, Option.bind_eq_bind,
    Option.bind_some, hvalue, UInt8.ofNat_toNat]

private theorem queryUnescape_percentBytes (bytes : List UInt8) (cs : List Char) :
    queryUnescape (bytes.flatMap percentByte ++ cs) =
      (queryUnescape cs).map fun rest => bytes ++ rest := by
  induction bytes with
  | nil => simp
  | cons b bytes ih =>
      rw [List.flatMap_cons, List.append_assoc, queryUnescape_percentByte, ih, Option.map_map]
      rfl

private theorem unreserved_ne {c d : Char} (h : isUnreserved c = true)
    (hd : isUnreserved d = false) : c ≠ d := by
  rintro rfl
  rw [h] at hd
  cases hd

private theorem queryUnescape_encodeChar (c : Char) (cs : List Char) :
    queryUnescape (encodeChar c ++ cs) =
      (queryUnescape cs).map fun bytes => String.utf8EncodeChar c ++ bytes := by
  rw [encodeChar]
  split
  · rename_i h
    have hpercent : c ≠ '%' := unreserved_ne h (by decide)
    have hplus : c ≠ '+' := unreserved_ne h (by decide)
    rw [List.singleton_append, queryUnescape.eq_def]
    simp only [if_neg hpercent, if_neg hplus]
  · exact queryUnescape_percentBytes _ cs

theorem queryUnescape_encode (text : List Char) :
    queryUnescape (encodeURIComponent text) = some (utf8 text) := by
  induction text with
  | nil => rw [encodeURIComponent, List.flatMap_nil, queryUnescape.eq_def]; rfl
  | cons c text ih =>
      rw [encodeURIComponent, List.flatMap_cons, queryUnescape_encodeChar]
      rw [encodeURIComponent] at ih
      rw [ih]
      rfl

private theorem digitChar_plain : ∀ n < 16,
    (Nat.digitChar n).toUpper ∉ ['&', '=', ';', '#', '?'] := by decide

/-- Encoded text has none of the characters that a query string is split at. -/
theorem encode_plain (text : List Char) :
    ∀ c ∈ encodeURIComponent text, c ∉ ['&', '=', ';', '#', '?'] := by
  intro c hc
  rw [encodeURIComponent, List.mem_flatMap] at hc
  obtain ⟨d, _, hd⟩ := hc
  rw [encodeChar] at hd
  split at hd
  · rename_i h
    obtain rfl : c = d := by simpa using hd
    intro hmem
    have hall : (['&', '=', ';', '#', '?'].all fun x => !isUnreserved x) = true := rfl
    have hreserved := List.all_eq_true.mp hall c hmem
    rw [h] at hreserved
    cases hreserved
  · rw [List.mem_flatMap] at hd
    obtain ⟨b, _, hb⟩ := hd
    have hlt : b.toNat < 256 := UInt8.toNat_lt_size b
    rw [percentByte] at hb
    simp only [List.mem_cons, List.not_mem_nil, or_false] at hb
    rcases hb with rfl | rfl | rfl
    · decide
    · exact digitChar_plain _ (by omega)
    · exact digitChar_plain _ (by omega)

end Encoding

section Segments

theorem segments_nil : segments [] = [] := by decide

/-- Query strings that are joined keep their segments. -/
theorem segments_intercalate (queries : List (List Char)) :
    segments (['&'].intercalate queries) = queries.flatMap segments := by
  induction queries with
  | nil => exact segments_nil
  | cons query queries ih =>
      cases queries with
      | nil => simp
      | cons query' queries =>
          rw [List.intercalate_cons_cons, List.append_assoc, List.singleton_append, segments,
            List.splitOn_append_cons_self, List.filter_append, List.flatMap_cons, ← ih]
          rfl

theorem mem_intercalate {c sep : Char} {parts : List (List Char)}
    (h : c ∈ [sep].intercalate parts) : c = sep ∨ ∃ part ∈ parts, c ∈ part := by
  induction parts with
  | nil => simp at h
  | cons part parts ih =>
      cases parts with
      | nil => exact .inr ⟨part, by simp, by simpa using h⟩
      | cons part' parts =>
          rw [List.intercalate_cons_cons, List.append_assoc, List.mem_append,
            List.singleton_append, List.mem_cons] at h
          rcases h with hpart | hsep | hrest
          · exact .inr ⟨part, by simp, hpart⟩
          · exact .inl hsep
          · obtain he | ⟨p, hp, hc⟩ := ih hrest
            · exact .inl he
            · exact .inr ⟨p, List.mem_cons_of_mem _ hp, hc⟩

/-- A text without separators is one segment. -/
theorem segments_of_plain {query : List Char} (hne : query ≠ []) (h : '&' ∉ query) :
    segments query = [query] := by
  rw [segments, List.splitOn_eq_singleton h]
  simp [hne]

end Segments

end Mandelbot
