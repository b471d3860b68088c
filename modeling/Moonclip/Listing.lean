import Moonclip.Basic
import Moonclip.Library.Substrings

/-! What a page of an S3 listing says: read by looking for tags, with the escapes of its
keys undone one entity after another, it is the keys and sizes the page was written for. -/
namespace Moonclip
open Library.Substrings

namespace S3

def replaceAll (word other : String) (s : List Char) : List Char := replace word.toList other.toList 0 s

/-- The ampersand last, so that `&amp;lt;` is the text `&lt;`. -/
def unescapeChars (s : List Char) : List Char :=
  replaceAll "&amp;" "&" (replaceAll "&apos;" "'" (replaceAll "&quot;" "\""
    (replaceAll "&gt;" ">" (replaceAll "&lt;" "<" s))))

def unescapeXml (s : String) : String := String.ofList (unescapeChars s.toList)

def openTag (tag : String) : List Char := ("<" ++ tag ++ ">").toList
def closeTag (tag : String) : List Char := ("</" ++ tag ++ ">").toList

/-- What is left of the page stands for the place the search goes on from. -/
def extractXmlValues (xml : List Char) (tag : String) : List String :=
  match _opened : cut (openTag tag) xml with
  | none => []
  | some (_, inside) =>
    match _closed : cut (closeTag tag) inside with
    | none => []
    | some (value, rest) =>
      unescapeXml (String.ofList value) :: extractXmlValues rest tag
termination_by xml.length
decreasing_by
  have one := length_cut _opened
  have two := length_cut _closed
  have some_ : 0 < (closeTag tag).length := by simp [closeTag]
  omega

def extractXmlValue (xml : List Char) (tag : String) : Option String := (extractXmlValues xml tag).head?

/-- Unicode's `White_Space`, which `trim` takes off both ends. -/
def isWhitespace (c : Char) : Bool :=
  let n := c.toNat
  (0x09 ≤ n && n ≤ 0x0D) || n == 0x20 || n == 0x85 || n == 0xA0 || n == 0x1680 ||
    (0x2000 ≤ n && n ≤ 0x200A) ||
    n == 0x2028 || n == 0x2029 || n == 0x202F || n == 0x205F || n == 0x3000

def trim (s : List Char) : List Char := ((s.dropWhile isWhitespace).reverse.dropWhile isWhitespace).reverse

/-- A `u64` as `parse` reads it: an optional plus sign, then digits, and no overflow. -/
def parseU64 (s : List Char) : Option UInt64 :=
  let digits := if s.head? = some '+' then s.tail else s
  if digits ≠ [] ∧ digits.all Char.isDigit then
    let n := Nat.ofDigitChars 10 digits 0
    if n < 2 ^ 64 then some (UInt64.ofNat n) else none
  else none

/-- Each object of a page with its size, read from its own element. -/
def listedObjects (xml : String) : List (String × Option UInt64) :=
  ((split (openTag "Contents") 0 xml.toList).drop 1).filterMap fun element =>
    let element := (split (closeTag "Contents") 0 element).headD element
    (extractXmlValue element "Key").map fun key =>
      (key, (extractXmlValue element "Size").bind fun s => parseU64 (trim s.toList))

/-- The five predefined entities. -/
def entity (c : Char) : List Char :=
  if c = '<' then "&lt;".toList
  else if c = '>' then "&gt;".toList
  else if c = '"' then "&quot;".toList
  else if c = '\'' then "&apos;".toList
  else if c = '&' then "&amp;".toList
  else [c]

def special : List Char := ['<', '>', '"', '\'', '&']

/-- The text with those of `left` escaped. -/
def partlyEscaped (left : List Char) (s : List Char) : List Char :=
  s.flatMap fun c => if c ∈ left then entity c else [c]

def escapeXml (s : String) : String := String.ofList (partlyEscaped special s.toList)

theorem headed_entity : ∀ c ∈ special, ∃ tail, entity c = '&' :: tail ∧ '&' ∉ tail := by
  intro c there
  simp only [special, List.mem_cons, List.not_mem_nil, or_false] at there
  rcases there with rfl | rfl | rfl | rfl | rfl
  all_goals exact ⟨_, rfl, by decide⟩

theorem entities_apart : ∀ c ∈ special, ∀ d ∈ special, c ≠ d → ¬ entity c <+: entity d := by
  intro c mark d mark' other
  have all :
    special.all (fun c => special.all fun d => c == d || !(entity c).isPrefixOf (entity d)) = true := by
    decide
  have apart := List.all_eq_true.mp (List.all_eq_true.mp all c mark) d mark'
  rw [← List.isPrefixOf_iff_prefix]
  simpa only [beq_iff_eq, other, Bool.or_eq_true, false_or, Bool.not_eq_true', Bool.not_eq_true] using apart

/-- One replacement: the first of the entities still there is gone. -/
theorem replace_entity {c : Char} {left : List Char} (mark : c ∈ special) (some_ : left ⊆ special)
    (new : c ∉ left) (ampersand : '&' ∈ c :: left) {s : List Char} :
    replace (entity c) [c] 0 (partlyEscaped (c :: left) s) = partlyEscaped left s := by
  have headed : Headed '&' (entity c) := headed_entity c mark
  apply replace_flatMap headed.ne_nil
  intro t _
  by_cases same : t = c
  · left
    subst same
    simp [new]
  · right
    have other : (t ∈ c :: left) = (t ∈ left) := by simp [same]
    simp only [other]
    constructor
    · intro rest
      by_cases escaped : t ∈ left
      · rw [if_pos escaped]
        exact headed.free_word (headed_entity t (some_ escaped))
          (entities_apart c mark t (some_ escaped) (Ne.symm same))
          (entities_apart t (some_ escaped) c mark same)
      · rw [if_neg escaped]
        apply headed.free_of_notMem
        intro is
        rw [List.mem_singleton.mp is] at ampersand
        rcases List.mem_cons.mp ampersand with first | later
        · exact same first
        · exact escaped later
    · trivial

theorem unescape_escape (s : List Char) : unescapeChars (partlyEscaped special s) = s := by
  have lt : replaceAll "&lt;" "<" (partlyEscaped special s) = partlyEscaped ['>', '"', '\'', '&'] s :=
    replace_entity (c := '<') (by decide) (by decide) (by decide) (by decide)
  have gt : replaceAll "&gt;" ">" (partlyEscaped ['>', '"', '\'', '&'] s) = partlyEscaped
    ['"', '\'', '&'] s :=
    replace_entity (c := '>') (by decide) (by decide) (by decide) (by decide)
  have quot : replaceAll "&quot;" "\"" (partlyEscaped ['"', '\'', '&'] s) = partlyEscaped ['\'', '&'] s :=
    replace_entity (c := '"') (by decide) (by decide) (by decide) (by decide)
  have apos : replaceAll "&apos;" "'" (partlyEscaped ['\'', '&'] s) = partlyEscaped ['&'] s :=
    replace_entity (c := '\'') (by decide) (by decide) (by decide) (by decide)
  have amp : replaceAll "&amp;" "&" (partlyEscaped ['&'] s) = partlyEscaped [] s :=
    replace_entity (c := '&') (by decide) (by decide) (by decide) (by decide)
  have plain : partlyEscaped [] s = s := by simp [partlyEscaped]
  rw [unescapeChars, lt, gt, quot, apos, amp, plain]

theorem unescapeXml_escapeXml (s : String) : unescapeXml (escapeXml s) = s := by
  simp [unescapeXml, escapeXml, unescape_escape]

example : unescapeXml "a&amp;lt;b" = "a&lt;b" := by decide

/-- Digits are none of the letters with an escape. -/
theorem unescapeXml_toDigits {n : Nat} : unescapeXml (String.ofList (Nat.toDigits 10 n)) =
    String.ofList (Nat.toDigits 10 n) := by
  have none : ∀ c ∈ special, (!c.isDigit) = true := List.all_eq_true.mp (by decide)
  have same : escapeXml (String.ofList (Nat.toDigits 10 n)) = String.ofList (Nat.toDigits 10 n) := by
    rw [escapeXml, partlyEscaped, String.toList_ofList]
    congr 1
    calc _ = (Nat.toDigits 10 n).flatMap fun c => [c] := by
          apply List.flatMap_congr
          intro c there
          have digit := Nat.isDigit_of_mem_toDigits (by decide) (by decide) there
          rw [if_neg fun escaped => by simpa [digit] using none c escaped]
      _ = Nat.toDigits 10 n := List.flatMap_singleton' _
  rw [← same, unescapeXml_escapeXml, same]

/-- The tags the reading looks for. -/
def marks : List (List Char) :=
  ["Contents", "Key", "Size"].flatMap fun tag => [openTag tag, closeTag tag]

/-- Anything else a page holds. -/
structure Markup where
  text : List Char
  clear : ∀ word ∈ marks, Clear word text

/-- One object as the service lists it: its key escaped, its size if it gives one, and
whatever it writes around them. -/
structure Listed where
  key : String
  size : Option UInt64
  lead : Markup
  middle : Markup
  tail : Markup
  after : Markup

def Listed.keyElement (o : Listed) : List Char :=
  o.lead.text ++ (openTag "Key" ++ ((escapeXml o.key).toList ++ (closeTag "Key" ++ o.middle.text)))

def Listed.sizeElement (o : Listed) : List Char :=
  match o.size with
  | none => []
  | some n => openTag "Size" ++ (Nat.toDigits 10 n.toNat ++ (closeTag "Size" ++ o.tail.text))

def Listed.element (o : Listed) : List Char := o.keyElement ++ o.sizeElement

def Listed.body (o : Listed) : List Char := o.element ++ (closeTag "Contents" ++ o.after.text)

/-- A page of the listing. -/
def renderPage (header : Markup) (objects : List Listed) : String :=
  String.ofList (header.text ++ (objects.map Listed.body).flatMap fun body => openTag "Contents" ++ body)

theorem headed_mark : ∀ word ∈ marks, Headed '<' word := by
  intro word there
  simp only [marks, List.flatMap_cons, List.flatMap_nil, List.append_nil, List.mem_append, List.mem_cons,
    List.not_mem_nil, or_false] at there
  rcases there with (rfl | rfl) | (rfl | rfl) | rfl | rfl
  all_goals exact ⟨_, rfl, by decide⟩

/-- A page may hold nothing else. -/
instance : Inhabited Markup where
  default :=
    { text := []
      clear := fun word mark u suffix occurs => by
        rw [List.suffix_nil.mp suffix] at occurs
        exact (headed_mark word mark).ne_nil (List.prefix_nil.mp occurs) }

theorem marks_apart : ∀ word ∈ marks, ∀ other ∈ marks, word ≠ other → ¬ word <+: other := by decide

section
variable {word other rest : List Char} {o : Listed}

theorem free_mark (mark : word ∈ marks) (mark' : other ∈ marks) (apart : word ≠ other) :
    Free word other rest :=
  (headed_mark word mark).free_word (headed_mark other mark') (marks_apart word mark other mark' apart)
    (marks_apart other mark' word mark (Ne.symm apart))

theorem Markup.free (m : Markup) (mark : word ∈ marks) (border : ∀ x ∈ rest.head?, x = '<') :
    Free word m.text rest :=
  (headed_mark word mark).free_of_clear (m.clear word mark) border

theorem notMem_escapeXml {s : String} : '<' ∉ (escapeXml s).toList := by
  have entities : ∀ c ∈ special, (!(entity c).contains '<') = true := List.all_eq_true.mp (by decide)
  simp only [escapeXml, partlyEscaped, String.toList_ofList, List.mem_flatMap, not_exists, not_and]
  intro c _
  by_cases escaped : c ∈ special
  · rw [if_pos escaped]
    simpa using entities c escaped
  · rw [if_neg escaped, List.mem_singleton]
    rintro rfl
    exact escaped (by decide)

theorem notMem_toDigits {n : Nat} : '<' ∉ Nat.toDigits 10 n := by
  intro there
  have digit := Nat.isDigit_of_mem_toDigits (by decide) (by decide) there
  contradiction

/-- A tag begins nowhere in the element of an object that does not write it itself. -/
theorem Listed.free_keyElement (mark : word ∈ marks) (opens : word ≠ openTag "Key")
    (closes : word ≠ closeTag "Key")
    (border : ∀ x ∈ rest.head?, x = '<') : Free word o.keyElement rest := by
  have open_ := (headed_mark (openTag "Key") (by decide))
  simp only [Listed.keyElement, free_append, List.append_assoc]
  refine ⟨o.lead.free mark open_.border, free_mark mark (by decide) opens, ?_⟩
  exact ⟨(headed_mark word mark).free_of_notMem notMem_escapeXml, free_mark mark (by decide) closes,
    o.middle.free mark border⟩

theorem Listed.free_sizeElement (mark : word ∈ marks) (opens : word ≠ openTag "Size")
    (closes : word ≠ closeTag "Size") (border : ∀ x ∈ rest.head?, x = '<') :
      Free word o.sizeElement rest := by
  unfold Listed.sizeElement
  cases o.size with
  | none => exact free_nil
  | some n =>
    simp only [free_append]
    exact ⟨free_mark mark (by decide) opens, (headed_mark word mark).free_of_notMem notMem_toDigits,
      free_mark mark (by decide) closes, o.tail.free mark border⟩

theorem Listed.border (border : ∀ x ∈ rest.head?, x = '<') :
    ∀ x ∈ (o.sizeElement ++ rest).head?, x = '<' := by
  unfold Listed.sizeElement
  cases o.size with
  | none => exact border
  | some n =>
    rw [List.append_assoc]
    exact (headed_mark (openTag "Size") (by decide)).border

/-- The tag an object stands in begins nowhere in its element. -/
theorem Listed.free_element (contents : word = openTag "Contents" ∨ word = closeTag "Contents")
    (border : ∀ x ∈ rest.head?, x = '<') : Free word o.element rest := by
  have mark : word ∈ marks := by
    rcases contents with rfl | rfl
    all_goals decide
  rw [Listed.element, free_append]
  constructor
  · apply Listed.free_keyElement mark _ _ (Listed.border border)
    all_goals rcases contents with rfl | rfl
    all_goals decide
  · apply Listed.free_sizeElement mark _ _ border
    all_goals rcases contents with rfl | rfl
    all_goals decide

theorem extractXmlValues_eq (xml : List Char) (tag : String) :
    extractXmlValues xml tag = match cut (openTag tag) xml with
      | none => []
      | some (_, inside) => match cut (closeTag tag) inside with
        | none => []
        | some (value, rest) => unescapeXml (String.ofList value) :: extractXmlValues rest tag := by
  rw [extractXmlValues]
  split
  · rename_i opened
    rw [opened]
  · rename_i before inside opened
    simp only [opened]
    split
    · rename_i closed
      rw [closed]
    · rename_i value rest closed
      rw [closed]

/-- The first value under a tag. -/
theorem extractXmlValue_append {tag : String} {xs value : List Char}
    (free : Free (openTag tag) xs (openTag tag ++ (value ++ (closeTag tag ++ rest))))
    (closes : Free (closeTag tag) value (closeTag tag ++ rest)) :
    extractXmlValue (xs ++ (openTag tag ++ (value ++ (closeTag tag ++ rest)))) tag =
      some (unescapeXml (String.ofList value)) := by
  rw [extractXmlValue, extractXmlValues_eq]
  simp only [cut_append free, cut_append closes, List.head?_cons]

theorem extractXmlValue_free {tag : String} {xs : List Char} (free : Free (openTag tag) xs []) :
    extractXmlValue xs tag = none := by
  have some_ : openTag tag ≠ [] := by simp [openTag]
  rw [extractXmlValue, extractXmlValues_eq, cut_clear some_ ((clear_iff some_).mpr free)]
  rfl

theorem not_isWhitespace {c : Char} (digit : c.isDigit) : isWhitespace c = false := by
  have bounds : 48 ≤ c.toNat ∧ c.toNat ≤ 57 := by
    simpa [Char.isDigit, UInt32.le_iff_toNat_le] using digit
  simp only [isWhitespace, Bool.or_eq_false_iff, Bool.and_eq_false_iff, decide_eq_false_iff_not,
    beq_eq_false_iff_ne]
  omega

theorem trim_digits {s : List Char} (digits : ∀ c ∈ s, c.isDigit) : trim s = s := by
  have stays : ∀ s : List Char, (∀ c ∈ s, c.isDigit) → s.dropWhile isWhitespace = s := by
    intro s digits
    cases s with
    | nil => rfl
    | cons c s => rw [List.dropWhile_cons, not_isWhitespace (digits c List.mem_cons_self)]; rfl
  rw [trim, stays s digits, stays s.reverse fun c there => digits c (List.mem_reverse.mp there),
    List.reverse_reverse]

/-- A size comes back from its digits. -/
theorem parseU64_toDigits (n : UInt64) : parseU64 (trim (Nat.toDigits 10 n.toNat)) = some n := by
  have digits : ∀ c ∈ Nat.toDigits 10 n.toNat, c.isDigit := fun c there =>
    Nat.isDigit_of_mem_toDigits (by decide) (by decide) there
  have some_ : Nat.toDigits 10 n.toNat ≠ [] := Nat.toDigits_ne_nil
  have value : Nat.ofDigitChars 10 (Nat.toDigits 10 n.toNat) 0 = n.toNat := Nat.ofDigitChars_ten_toDigits
  have unsigned : (Nat.toDigits 10 n.toNat).head? ≠ some '+' := by
    intro sign
    have plus := digits '+' (List.mem_of_head? sign)
    contradiction
  rw [trim_digits digits, parseU64, if_neg unsigned]
  simp only [value]
  rw [if_pos ⟨some_, List.all_eq_true.mpr digits⟩, if_pos n.toNat_lt, UInt64.ofNat_toNat]

theorem Listed.key_read (o : Listed) : extractXmlValue o.element "Key" = some o.key := by
  have opens := headed_mark (openTag "Key") (by decide)
  have closes := headed_mark (closeTag "Key") (by decide)
  have free : ∀ rest, Free (openTag "Key") o.lead.text (openTag "Key" ++ rest) := fun rest =>
    o.lead.free (by decide) opens.border
  rw [Listed.element, Listed.keyElement]
  simp only [List.append_assoc]
  rw [extractXmlValue_append (free _) (closes.free_of_notMem notMem_escapeXml), String.ofList_toList,
    unescapeXml_escapeXml]

theorem Listed.size_read (o : Listed) :
    (extractXmlValue o.element "Size").bind (fun s => parseU64 (trim s.toList)) = o.size := by
  have opens := headed_mark (openTag "Size") (by decide)
  have closes := headed_mark (closeTag "Size") (by decide)
  have free : ∀ rest : List Char, (∀ x ∈ rest.head?, x = '<') → Free (openTag "Size") o.keyElement rest :=
    fun rest border => Listed.free_keyElement (by decide) (by decide) (by decide) border
  rw [Listed.element, Listed.sizeElement]
  cases o.size with
  | none =>
    rw [List.append_nil, extractXmlValue_free (free [] nofun)]
    rfl
  | some n =>
    simp only [extractXmlValue_append (free _ opens.border) (closes.free_of_notMem notMem_toDigits),
      Option.bind_some, unescapeXml_toDigits, String.toList_ofList]
    exact parseU64_toDigits n

/-- One object's part of the page. -/
theorem Listed.body_read (o : Listed) :
    (split (closeTag "Contents") 0 o.body).headD o.body = o.element := by
  have closes := headed_mark (closeTag "Contents") (by decide)
  have free : Free (closeTag "Contents") o.element (closeTag "Contents" ++ o.after.text) :=
    Listed.free_element (.inr rfl) closes.border
  rw [Listed.body, split_free free, split_word closes.ne_nil]
  simp [prepend]

theorem Listed.body_clear (o : Listed) : Clear (openTag "Contents") o.body := by
  have opens := headed_mark (openTag "Contents") (by decide)
  have closes := headed_mark (closeTag "Contents") (by decide)
  rw [clear_iff opens.ne_nil, Listed.body, free_append, free_append]
  refine ⟨Listed.free_element (.inl rfl) ?_, free_mark (by decide) (by decide) (by decide),
    o.after.free (by decide) nofun⟩
  rw [List.append_assoc]
  exact closes.border

end

theorem listedObjects_renderPage (header : Markup) (objects : List Listed) :
    listedObjects (renderPage header objects) = objects.map fun o => (o.key, o.size) := by
  have opens := headed_mark (openTag "Contents") (by decide)
  have bodies : ∀ body ∈ objects.map Listed.body, Clear (openTag "Contents") body := by
    intro body there
    obtain ⟨o, _, rfl⟩ := List.mem_map.mp there
    exact o.body_clear
  rw [listedObjects, renderPage, String.toList_ofList,
    opens.split_flatMap (header.clear _ (by decide)) bodies, List.drop_one, List.tail_cons,
      List.filterMap_map]
  rw [← List.filterMap_eq_map]
  apply List.filterMap_congr
  intro o _
  simp only [Function.comp, Listed.body_read, Listed.key_read, Listed.size_read, Option.map_some]

/-- What a page is read as is what it was written for, in order, whatever the keys; and
undoing the escapes of a text gives the text. -/
theorem listing_decodes :
    (∀ (header : Markup) (objects : List Listed),
      listedObjects (renderPage header objects) = objects.map fun o => (o.key, o.size)) ∧
    ∀ s : String, unescapeXml (escapeXml s) = s :=
  ⟨listedObjects_renderPage, unescapeXml_escapeXml⟩

end S3
end Moonclip
