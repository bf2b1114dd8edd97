import Mandelbot.Library.JsonText
import Mandelbot.Library.Percent
import Mathlib.Data.List.TakeWhile

/-!
# Query strings of the HTTP client

The query string that `HttpClient` (module/rest.ts of every generated module) makes of a query
object. A server that reads the string gets every entry with its text, whatever the object holds;
an inner object loses the key that it stands under, and null loses its entry.
-/

namespace Mandelbot.Client

variable {ν : Type} [NumberFormat ν]

section Source

def objectText : List Char := "[object Object]".toList

mutual

/-- What `String` makes of a value. -/
def toText : Json ν → List Char
  | .null => ['n', 'u', 'l', 'l']
  | .bool true => ['t', 'r', 'u', 'e']
  | .bool false => ['f', 'a', 'l', 's', 'e']
  | .num n => NumberFormat.text n
  | .str s => s.toList
  | .arr items => [','].intercalate (itemTexts items)
  | .obj _ => objectText

/-- `join` leaves null out. -/
def itemTexts : List (Json ν) → List (List Char)
  | [] => []
  | .null :: items => [] :: itemTexts items
  | v :: items => toText v :: itemTexts items

end

def addQueryParam (key : String) (value : Json ν) : List Char :=
  encodeURIComponent key.toList ++ '=' :: encodeURIComponent (toText value)

/-- The parts that `toQueryString` joins; for `typeof` null is an object, one without keys. -/
def queryParts : List (String × Json ν) → List (List Char)
  | [] => []
  | (_, .null) :: query => [] :: queryParts query
  | (_, .obj inner) :: query => ['&'].intercalate (queryParts inner) :: queryParts query
  | (key, value) :: query => addQueryParam key value :: queryParts query

def toQueryString (query : List (String × Json ν)) : List Char := ['&'].intercalate (queryParts query)

/-- The URL that `request` fetches; a query that is not an object has no entries. -/
def requestUrl (baseUrl path : List Char) (query : Js ν) : List Char :=
  let queryString := toQueryString query.spread.props
  baseUrl ++ path ++ if queryString = [] then [] else '?' :: queryString

end Source

section Arrival

/-- The entries of a query object with their texts. -/
def entries : List (String × Json ν) → List (String × List Char)
  | [] => []
  | (_, .null) :: query => entries query
  | (_, .obj inner) :: query => entries inner ++ entries query
  | (key, value) :: query => (key, toText value) :: entries query

private def segmentOf (entry : String × List Char) : List Char :=
  encodeURIComponent entry.1.toList ++ '=' :: encodeURIComponent entry.2

private theorem segments_segmentOf (entry : String × List Char) :
    segments (segmentOf entry) = [segmentOf entry] := by
  apply segments_of_plain
  · rw [segmentOf]
    simp
  · rw [segmentOf, List.mem_append, List.mem_cons]
    rintro (h | h | h)
    · exact encode_plain _ _ h (by decide)
    · cases h
    · exact encode_plain _ _ h (by decide)

/-- The parts have a segment for each entry. -/
private theorem segments_queryParts (query : List (String × Json ν)) :
    (queryParts query).flatMap segments = (entries query).map segmentOf := by
  induction query using queryParts.induct with
  | case1 =>
      rw [queryParts, entries]
      rfl
  | case2 key query ih =>
      rw [queryParts, entries, List.flatMap_cons, segments_nil, List.nil_append, ih]
  | case3 key inner query ih ih' =>
      rw [queryParts, entries, List.flatMap_cons, segments_intercalate, List.map_append, ih, ih']
  | case4 key value query h h' ih =>
      have hentry := segments_segmentOf (key, toText value)
      rw [queryParts, entries, List.flatMap_cons, ih]
      · rw [List.map_cons]
        exact congrArg (· ++ (entries query).map segmentOf) hentry
      · exact h
      · exact h'
      · exact h
      · exact h'

private theorem cutSegment_segmentOf (entry : String × List Char) :
    cutSegment (segmentOf entry) = some (utf8 entry.1.toList, utf8 entry.2) := by
  have hkey : ∀ c ∈ encodeURIComponent entry.1.toList, (c ≠ '=') = True := by
    intro c hc
    have hplain := encode_plain _ c hc
    rw [eq_iff_iff, iff_true]
    rintro rfl
    exact hplain (by decide)
  have hall : ∀ c ∈ encodeURIComponent entry.1.toList, decide (c ≠ '=') = true := by
    intro c hc
    rw [decide_eq_true_eq, hkey c hc]
    trivial
  rw [cutSegment, segmentOf, List.takeWhile_append_of_pos hall, List.dropWhile_append_of_pos hall]
  simp [queryUnescape_encode]

private theorem segmentOf_noSemicolon (entry : String × List Char) : ';' ∉ segmentOf entry := by
  rw [segmentOf, List.mem_append, List.mem_cons]
  rintro (h | h | h)
  · exact encode_plain _ _ h (by decide)
  · cases h
  · exact encode_plain _ _ h (by decide)

theorem parseQuery_toQueryString (query : List (String × Json ν)) :
    parseQuery (toQueryString query) =
      some ((entries query).map fun entry => (utf8 entry.1.toList, utf8 entry.2)) := by
  rw [parseQuery, toQueryString, segments_intercalate, segments_queryParts]
  induction entries query with
  | nil => rfl
  | cons entry rest ih =>
      rw [List.map_cons, List.mapM_cons, ih, if_neg (segmentOf_noSemicolon entry),
        cutSegment_segmentOf]
      rfl

/-- The query string of a URL, as a server takes it. -/
def rawQuery (url : List Char) : List Char :=
  ((url.takeWhile (· ≠ '#')).dropWhile (· ≠ '?')).drop 1

private theorem queryParts_plain (query : List (String × Json ν)) :
    ∀ part ∈ queryParts query, '#' ∉ part := by
  induction query using queryParts.induct with
  | case1 => simp [queryParts]
  | case2 key query ih => simpa [queryParts] using ih
  | case3 key inner query ih ih' =>
      intro part hpart
      rw [queryParts, List.mem_cons] at hpart
      rcases hpart with rfl | hpart
      · intro hmem
        obtain he | ⟨p, hp, hc⟩ := mem_intercalate hmem
        · cases he
        · exact ih p hp hc
      · exact ih' part hpart
  | case4 key value query h h' ih =>
      intro part hpart
      rw [queryParts, List.mem_cons] at hpart
      · rcases hpart with rfl | hpart
        · rw [addQueryParam, List.mem_append, List.mem_cons]
          rintro (hmem | hmem | hmem)
          · exact encode_plain _ _ hmem (by decide)
          · cases hmem
          · exact encode_plain _ _ hmem (by decide)
        · exact ih part hpart
      · exact h
      · exact h'

private theorem toQueryString_plain (query : List (String × Json ν)) :
    '#' ∉ toQueryString query := by
  intro hmem
  obtain he | ⟨part, hpart, hc⟩ := mem_intercalate hmem
  · cases he
  · exact queryParts_plain query part hpart hc

theorem rawQuery_requestUrl {baseUrl path : List Char}
    (h : ∀ c ∈ baseUrl ++ path, c ≠ '?' ∧ c ≠ '#') (query : Js ν) :
    rawQuery (requestUrl baseUrl path query) = toQueryString query.spread.props := by
  have hfront : ∀ c ∈ baseUrl ++ path, decide (c ≠ '#') = true := by
    intro c hc
    simpa using (h c hc).2
  have hpath : ∀ c ∈ baseUrl ++ path, decide (c ≠ '?') = true := by
    intro c hc
    simpa using (h c hc).1
  rw [rawQuery, requestUrl]
  by_cases hempty : toQueryString query.spread.props = []
  · have hall : (baseUrl ++ path).takeWhile (· ≠ '#') = baseUrl ++ path :=
      List.takeWhile_eq_self_iff.mpr hfront
    have hnone : (baseUrl ++ path).dropWhile (· ≠ '?') = [] := List.dropWhile_eq_nil_iff.mpr hpath
    simp only [hempty, if_pos, List.append_nil, hall, hnone, List.drop_nil]
  · have hall : ∀ c ∈ baseUrl ++ path ++ '?' :: toQueryString query.spread.props,
        decide (c ≠ '#') = true := by
      intro c hc
      rw [List.mem_append, List.mem_cons] at hc
      rcases hc with hc | rfl | hc
      · exact hfront c hc
      · decide
      · have hne : c ≠ '#' := fun he => toQueryString_plain query.spread.props (he ▸ hc)
        simpa using hne
    simp only [if_neg hempty]
    rw [List.takeWhile_eq_self_iff.mpr hall, List.dropWhile_append_of_pos hpath]
    simp

/-- A request to a path without `?` and `#` brings the entries of its query object to the server:
each under its own key, with its text, as UTF-8 bytes. -/
theorem request_arrives {baseUrl path : List Char}
    (h : ∀ c ∈ baseUrl ++ path, c ≠ '?' ∧ c ≠ '#') (query : Js ν) :
    parseQuery (rawQuery (requestUrl baseUrl path query)) =
      some ((entries query.spread.props).map fun entry => (utf8 entry.1.toList, utf8 entry.2)) := by
  rw [rawQuery_requestUrl h]
  exact parseQuery_toQueryString query.spread.props

/-- { filter: { denom: "a&b" } } -/
def sampleQuery : Js ℕ :=
  (Obj.empty.set "filter" (Obj.empty.set "denom" (Js.str "a&b")).toJs).toJs

theorem request_arrives_sample :
    parseQuery (rawQuery (requestUrl "http://node".toList "/supply".toList sampleQuery)) =
      some [(utf8 "denom".toList, utf8 "a&b".toList)] := by
  have hprops : sampleQuery.spread.props = [("filter", .obj [("denom", .str "a&b")])] := rfl
  have hentries : entries sampleQuery.spread.props = [("denom", "a&b".toList)] := by
    rw [hprops]
    simp [entries, toText]
  have hpath : ("http://node".toList ++ "/supply".toList).all
      (fun c => c ≠ '?' && c ≠ '#') = true := rfl
  have hplain : ∀ c ∈ "http://node".toList ++ "/supply".toList, c ≠ '?' ∧ c ≠ '#' := by
    intro c hc
    simpa using List.all_eq_true.mp hpath c hc
  rw [request_arrives hplain sampleQuery, hentries]
  rfl

end Arrival

end Mandelbot.Client
