import Kindred.Lib.Printing
import Kindred.Rest.Reading

/-! Logic trees in PostgREST's syntax, and back. -/

namespace Kindred.Rest
open Lib Lib.Tx Lib.Parser

/-- A backslash before each `\` and each `"`. -/
def escaped : List Char → List Char
  | [] => []
  | c :: cs => if c = '\\' ∨ c = '"' then '\\' :: c :: escaped cs else c :: escaped cs

def quotedText (value : String) : List Char := '"' :: (escaped value.toList ++ ['"'])

def listText (values : List String) : List Char :=
  "(".toList ++ [','].intercalate (values.map quotedText) ++ ")".toList

def notText (negate : Bool) : List Char := if negate then "not.".toList else []

def langText : Option String → List Char
  | none => []
  | some lang => "(".toList ++ lang.toList ++ ")".toList

def quantifierText : Option Quantifier → List Char
  | none => []
  | some .any => "(any)".toList
  | some .all => "(all)".toList

def operationText : Operation → List Char
  | .in_ values => "in.".toList ++ listText values
  | .is value => "is.".toList ++ value.name.toList
  | .isdistinct value => "isdistinct.".toList ++ quotedText value
  | .textSearch op lang value =>
    op.name.toList ++ (langText lang ++ ".".toList) ++ quotedText value
  | .simple op quantifier value =>
    op.name.toList ++ (quantifierText quantifier ++ ".".toList) ++ quotedText value

def LogicOp.name : LogicOp → String
  | and => "and"
  | or => "or"

section
variable (u : Unicode) (bare : String → Bool)

/-- Identifiers with `-` between them. -/
def plain (name : String) : Bool :=
  (name.toList.splitOn '-').all fun part => !part.isEmpty && part.all (isIdentChar u)

/-- Quoted, but for the plain ones of `bare`. -/
def nameText (name : String) : List Char :=
  if bare name && plain u name then name.toList else quotedText name

def keyText (op : JsonOp) : List Char :=
  if op.index then op.key.toList
  else if op.key.toList.head?.any Char.isDigit then quotedText op.key
  else nameText u bare op.key

def jsonOpText (op : JsonOp) : List Char := op.arrow.sql.toList ++ keyText u bare op

def fieldText (f : FieldRef) : List Char :=
  nameText u bare f.name ++ (f.json.map (jsonOpText u bare)).flatten

def filterText (f : Filter) : List Char :=
  fieldText u bare f.field ++ ".".toList ++ notText f.expr.negate ++ operationText f.expr.operation

mutual
def treeText : LogicTree → List Char
  | .filter f => filterText u bare f
  | .expr negate op children =>
    notText negate ++ op.name.toList ++
      ("(".toList ++ [','].intercalate (treeTexts children) ++ ")".toList)
def treeTexts : List LogicTree → List (List Char)
  | [] => []
  | tree :: trees => treeText tree :: treeTexts trees
end

/-- The value of `and`, `or`, `not.and` and `not.or`. -/
def groupText (trees : List LogicTree) : List Char :=
  "(".toList ++ [','].intercalate (treeTexts u bare trees) ++ ")".toList

end

/-- `-?\d+` -/
def IsIndex (key : String) : Prop :=
  ∃ sign ds, key.toList = sign ++ ds ∧ (sign = [] ∨ sign = ['-']) ∧ ds ≠ [] ∧
    ∀ c ∈ ds, c.isDigit = true

def JsonOp.Printable (op : JsonOp) : Prop := op.index = true → IsIndex op.key

def Operation.Printable (u : Unicode) : Operation → Prop
  | .textSearch _ (some lang) _ =>
    lang ≠ "" ∧ ∀ c ∈ lang.toList, (u.letterOrNumber c || c = '_') = true
  | .simple op (some _) _ => op ∈ QUANTIFIABLE
  | _ => True

def Filter.Printable (u : Unicode) (f : Filter) : Prop :=
  (∀ op ∈ f.field.json, op.Printable) ∧ f.expr.operation.Printable u

/-- Every `and` and `or` is of something. -/
inductive LogicTree.Printable (u : Unicode) : LogicTree → Prop
  | filter (f : Filter) : f.Printable u → LogicTree.Printable u (.filter f)
  | expr (negate : Bool) (op : LogicOp) (children : List LogicTree) : children ≠ [] →
    (∀ tree ∈ children, LogicTree.Printable u tree) →
    LogicTree.Printable u (.expr negate op children)

theorem quotedTail_escaped (rest : List Char) :
    ∀ cs, quotedTail (escaped cs ++ '"' :: rest) = .ok (cs, rest)
  | [] => by simp [escaped, quotedTail]
  | c :: cs => by
    have ih := quotedTail_escaped rest cs
    unfold escaped
    by_cases h : c = '\\' ∨ c = '"'
    · rw [if_pos h]
      simp [quotedTail, ih, Except.map]
    · rw [if_neg h]
      obtain ⟨hback, hquote⟩ := not_or.mp h
      rw [List.cons_append, quotedTail]
      · simp [ih, Except.map]
      · exact hquote
      · exact fun hc _ => hback hc
      · exact fun _ _ hc _ => hback hc

theorem quoted_quotedText (value : String) (rest : List Char) :
    quoted (quotedText value ++ rest) = .ok (some value, rest) := by
  have htail := quotedTail_escaped rest value.toList
  simp [quotedText, quoted, htail, Except.map]

variable {u : Unicode} {bare : String → Bool} {c : Char} {text : List Char} {op : JsonOp}
  {next : List Char → Prop} {lang : Option String} {forest : Parser (List LogicTree)}
  {trees : List LogicTree}

theorem isIdentChar_ascii (h : c.val < 128) :
    isIdentChar u c = (c.isAlphanum || c = '_' || c = ' ' || c = '$') := by
  have hplane : c.val < 0x10000 := UInt32.lt_trans h (by decide)
  simp [isIdentChar, letterOrNumberUnit, u.ascii c h, hplane]

theorem isIdentChar_ne {d : Char} (h : isIdentChar u c = true) (hd : d.val < 128)
    (hnot : (d.isAlphanum || d = '_' || d = ' ' || d = '$') = false) : c ≠ d := by
  rintro rfl
  rw [isIdentChar_ascii hd, hnot] at h
  cases h

def StopsIdent (u : Unicode) (rest : List Char) : Prop := ∀ c ∈ rest.head?, isIdentChar u c = false

def EndsName (rest : List Char) : Prop :=
  (∃ cs, rest = '.' :: cs) ∨ (∃ cs, rest = '(' :: cs) ∨ ∃ cs, rest = '-' :: '>' :: cs

theorem EndsName.stopsIdent {rest : List Char} (h : EndsName rest) : StopsIdent u rest := by
  rintro c hc
  rcases h with ⟨cs, rfl⟩ | ⟨cs, rfl⟩ | ⟨cs, rfl⟩
  all_goals
    cases hc
    exact isIdentChar_ascii (by decide)

theorem identifier_yields (hne : text ≠ []) (h : ∀ c ∈ text, isIdentChar u c = true) :
    Yields (identifier u) text (.ofList text) (StopsIdent u) := by
  have hread : Yields (takeWhile (isIdentChar u)) text text (StopsIdent u) :=
    takeWhile_yields h fun _ hrest => hrest
  intro rest hrest
  refine bind_ok.mpr ⟨text, rest, hread rest hrest, ?_⟩
  rw [if_neg (by simpa using hne)]
  rfl

theorem hyphenated_part {part : List Char} (hne : part ≠ [])
    (h : ∀ c ∈ part, isIdentChar u c = true) :
    Part (hyphenated u) (StopsIdent u) ('-' :: part) ("-" ++ .ofList part) := by
  refine ⟨by simp, fun rest hrest => ?_, fun rest c hc => ?_⟩
  · have hread := identifier_yields hne h rest hrest
    cases part with
    | nil => exact absurd rfl hne
    | cons c cs =>
      have hc : isIdentChar u c = true := h c (by simp)
      have hgt : c ≠ '>' := isIdentChar_ne hc (by decide) (by decide)
      show hyphenated u ('-' :: c :: (cs ++ rest)) = _
      unfold hyphenated
      simp only [hgt, hc, ne_eq, not_false_eq_true, and_self, if_true, List.tail_cons]
      show StateT.map _ (identifier u) (c :: cs ++ rest) = _
      unfold StateT.map
      rw [hread]
      rfl
  · cases hc
    exact isIdentChar_ascii (by decide)

theorem hyphenated_ends : Yields (hyphenated u) [] none EndsName := by
  rintro rest (⟨cs, rfl⟩ | ⟨cs, rfl⟩ | ⟨cs, rfl⟩)
  · rfl
  · rfl
  · simp [hyphenated]

theorem plain_parts {name : String} (h : plain u name = true) : ∃ first parts,
    name.toList = first ++ (parts.map ('-' :: ·)).flatten ∧
    ∀ part ∈ first :: parts, part ≠ [] ∧ ∀ c ∈ part, isIdentChar u c = true := by
  unfold plain at h
  have hjoin : ['-'].intercalate (name.toList.splitOn '-') = name.toList :=
    List.intercalate_splitOn '-'
  cases hparts : name.toList.splitOn '-' with
  | nil => exact absurd hparts (List.splitOn_ne_nil _ _)
  | cons first parts =>
    rw [hparts, intercalate_cons] at hjoin
    rw [hparts] at h
    refine ⟨first, parts, hjoin.symm, fun part hpart => ?_⟩
    have hgood := List.all_eq_true.mp h part hpart
    simpa using hgood

theorem join_parts (first : List Char) (parts : List (List Char)) :
    String.ofList first ++ String.join (parts.map fun part => "-" ++ .ofList part) =
      .ofList (first ++ (parts.map ('-' :: ·)).flatten) := by
  apply String.toList_injective
  induction parts with
  | nil => simp
  | cons part parts ih =>
    simp only [String.toList_append, String.toList_ofList, List.append_cancel_left_eq] at ih
    simp [ih]

theorem plain_yields {name : String} (h : plain u name = true) :
    Yields (fieldName u) name.toList name EndsName := by
  obtain ⟨first, parts, hname, hgood⟩ := plain_parts h
  obtain ⟨hne, hfirst⟩ := hgood first (by simp)
  have hhyphens : List.Forall₂ (Part (hyphenated u) (StopsIdent u))
      (parts.map ('-' :: ·)) (parts.map fun part => "-" ++ .ofList part) := by
    rw [List.forall₂_map_left_iff, List.forall₂_map_right_iff, List.forall₂_same]
    intro part hpart
    obtain ⟨hpne, hchars⟩ := hgood part (by simp [hpart])
    exact hyphenated_part hpne hchars
  have hmore := many_yields hhyphens hyphenated_ends fun _ hrest => hrest.stopsIdent
  intro rest hrest
  rw [hname, List.append_assoc]
  have hstart : quoted (first ++ ((parts.map ('-' :: ·)).flatten ++ rest)) =
      .ok (none, first ++ ((parts.map ('-' :: ·)).flatten ++ rest)) := by
    cases first with
    | nil => exact absurd rfl hne
    | cons c cs =>
      have hquote : c ≠ '"' := isIdentChar_ne (hfirst c (by simp)) (by decide) (by decide)
      simp [quoted, hquote]
  have hstops := parts_start hhyphens (hrest.stopsIdent (u := u))
  have hident := identifier_yields hne hfirst _ hstops
  refine bind_ok.mpr ⟨none, _, hstart, bind_ok.mpr ⟨_, _, hident, ?_⟩⟩
  refine bind_ok.mpr ⟨_, rest, hmore rest hrest, ?_⟩
  rw [join_parts, ← hname, String.ofList_toList]
  rfl

theorem name_yields (name : String) :
    Yields (fieldName u) (nameText u bare name) name EndsName := by
  unfold nameText
  by_cases h : (bare name && plain u name) = true
  · rw [if_pos h]
    exact plain_yields (Bool.and_eq_true_iff.mp h).2
  · rw [if_neg h]
    intro rest _
    exact bind_ok.mpr ⟨some name, rest, quoted_quotedText name rest, rfl⟩

theorem EndsName.endsIndex {rest : List Char} (h : EndsName rest) : endsIndex rest = true := by
  rcases h with ⟨cs, rfl⟩ | ⟨cs, rfl⟩ | ⟨cs, rfl⟩ <;> rfl

theorem EndsName.no_digit {rest : List Char} (h : EndsName rest) :
    rest.takeWhile Char.isDigit = [] ∧ rest.dropWhile Char.isDigit = rest := by
  rcases h with ⟨cs, rfl⟩ | ⟨cs, rfl⟩ | ⟨cs, rfl⟩ <;> exact ⟨rfl, rfl⟩

theorem integerPrefix_index {key : String} (h : IsIndex key) {rest : List Char}
    (hrest : EndsName rest) : integerPrefix (key.toList ++ rest) = some (key.toList, rest) := by
  obtain ⟨sign, ds, hkey, hsign, hne, hdigits⟩ := h
  obtain ⟨hnone, hall⟩ := hrest.no_digit
  rw [hkey, List.append_assoc]
  rcases hsign with rfl | rfl
  · cases ds with
    | nil => exact absurd rfl hne
    | cons d ds =>
      have hminus : d ≠ '-' := by
        rintro rfl
        exact absurd (hdigits '-' (by simp)) (by decide)
      have hd : d.isDigit = true := hdigits d (by simp)
      have hds : ∀ c ∈ ds, c.isDigit = true := fun c hc => hdigits c (by simp [hc])
      have htake : (ds ++ rest).takeWhile Char.isDigit = ds := by
        rw [List.takeWhile_append_of_pos hds, hnone, List.append_nil]
      have hdrop : (ds ++ rest).dropWhile Char.isDigit = rest := by
        rw [List.dropWhile_append_of_pos hds, hall]
      simp [integerPrefix, hminus, hd, htake, hdrop]
  · simp only [List.cons_append, List.nil_append, integerPrefix]
    rw [List.takeWhile_append_of_pos hdigits, List.dropWhile_append_of_pos hdigits, hnone, hall]
    simp [hne]

theorem integerPrefix_none {cs : List Char} (hc : c.isDigit = false) (hsign : c ≠ '-') :
    integerPrefix (c :: cs) = none := by
  simp [integerPrefix, hc, hsign]

theorem nameText_head (name : String) : ∃ c cs, nameText u bare name = c :: cs ∧
    (c = '"' ∨ isIdentChar u c = true ∧ name.toList.head? = some c) := by
  unfold nameText
  by_cases hbare : (bare name && plain u name) = true
  · rw [if_pos hbare]
    obtain ⟨first, parts, hname, hgood⟩ := plain_parts (Bool.and_eq_true_iff.mp hbare).2
    obtain ⟨hne, hfirst⟩ := hgood first (by simp)
    cases first with
    | nil => exact absurd rfl hne
    | cons c cs =>
      rw [hname]
      exact ⟨c, _, rfl, .inr ⟨hfirst c (by simp), rfl⟩⟩
  · rw [if_neg hbare]
    exact ⟨'"', _, rfl, .inl rfl⟩

theorem keyText_head (h : op.Printable) : ∃ c cs, keyText u bare op = c :: cs ∧ c ≠ '>' := by
  unfold keyText
  by_cases hindex : op.index = true
  · obtain ⟨sign, ds, hkey, hsign, hne, hdigits⟩ := h hindex
    rw [if_pos hindex, hkey]
    rcases hsign with rfl | rfl
    · cases ds with
      | nil => exact absurd rfl hne
      | cons d ds =>
        refine ⟨d, ds, rfl, ?_⟩
        rintro rfl
        exact absurd (hdigits '>' (by simp)) (by decide)
    · exact ⟨'-', ds, rfl, by decide⟩
  · rw [if_neg hindex]
    by_cases hdigit : op.key.toList.head?.any Char.isDigit = true
    · rw [if_pos hdigit]
      exact ⟨'"', _, rfl, by decide⟩
    · rw [if_neg hdigit]
      obtain ⟨c, cs, htext, hc⟩ : ∃ c cs, nameText u bare op.key = c :: cs ∧
          (c = '"' ∨ isIdentChar u c = true ∧ op.key.toList.head? = some c) :=
        nameText_head op.key
      refine ⟨c, cs, htext, ?_⟩
      rcases hc with rfl | ⟨hc, _⟩
      · decide
      · exact isIdentChar_ne hc (by decide) (by decide)

theorem jsonKey_yields (h : op.Printable) :
    Yields (jsonKey u op.arrow) (keyText u bare op) (some op) EndsName := by
  intro rest hrest
  obtain ⟨arrow, key, index⟩ := op
  unfold jsonKey keyText
  rw [get_bind]
  cases index with
  | true =>
    rw [if_pos rfl, integerPrefix_index (h rfl) hrest]
    simp only [hrest.endsIndex, if_true, String.ofList_toList]
    rfl
  | false =>
    rw [if_neg Bool.false_ne_true]
    by_cases hdigit : key.toList.head?.any Char.isDigit = true
    · rw [if_pos hdigit]
      have hnone : integerPrefix (quotedText key ++ rest) = none :=
        integerPrefix_none (by decide) (by decide)
      exact bind_ok.mpr ⟨key, rest,
        bind_ok.mpr ⟨some key, rest, quoted_quotedText key rest, rfl⟩, rfl⟩
    · rw [if_neg hdigit]
      have hread : fieldName u (nameText u bare key ++ rest) = .ok (key, rest) :=
        name_yields key rest hrest
      have hnone : integerPrefix (nameText u bare key ++ rest) = none := by
        obtain ⟨c, cs, htext, hc⟩ : ∃ c cs, nameText u bare key = c :: cs ∧
            (c = '"' ∨ isIdentChar u c = true ∧ key.toList.head? = some c) := nameText_head key
        rw [htext]
        rcases hc with rfl | ⟨hident, hhead⟩
        · exact integerPrefix_none (by decide) (by decide)
        · refine integerPrefix_none ?_ (isIdentChar_ne hident (by decide) (by decide))
          simpa [hhead] using hdigit
      simp only [hnone]
      exact bind_ok.mpr ⟨key, rest, hread, rfl⟩

theorem jsonOp_part (h : op.Printable) : Part (jsonOp u) EndsName (jsonOpText u bare op) op := by
  obtain ⟨c, cs, htext, hc⟩ : ∃ c cs, keyText u bare op = c :: cs ∧ c ≠ '>' := keyText_head h
  have hkey : Yields (jsonKey u op.arrow) (keyText u bare op) (some op) EndsName := jsonKey_yields h
  unfold jsonOpText
  refine ⟨by simp [htext], fun rest hrest => ?_, fun rest => ?_⟩
  · have hread := hkey rest hrest
    rw [List.append_assoc]
    cases harrow : op.arrow with
    | text =>
      rw [harrow] at hread
      exact bind_ok.mpr ⟨true, _, eat_append "->>" _, hread⟩
    | json =>
      rw [harrow, htext] at hread
      have hmiss : eat "->>" ("->".toList ++ (c :: cs ++ rest)) =
          .ok (false, "->".toList ++ (c :: cs ++ rest)) := by
        show eat "->>" ('-' :: '>' :: c :: (cs ++ rest)) = _
        unfold eat
        rw [if_neg (by simp [hc.symm])]
        rfl
      rw [htext]
      refine bind_ok.mpr ⟨false, _, hmiss, ?_⟩
      exact bind_ok.mpr ⟨true, _, eat_append "->" _, hread⟩
  · cases op.arrow
    · exact .inr (.inr ⟨_, rfl⟩)
    · exact .inr (.inr ⟨_, rfl⟩)

def AtDot (rest : List Char) : Prop := ∃ cs, rest = '.' :: cs

theorem field_yields {f : FieldRef} (h : ∀ op ∈ f.json, op.Printable) :
    Yields (field u) (fieldText u bare f) f AtDot := by
  have hops : List.Forall₂ (Part (jsonOp u) EndsName) (f.json.map (jsonOpText u bare)) f.json := by
    rw [List.forall₂_map_left_iff, List.forall₂_same]
    exact fun op hop => jsonOp_part (h op hop)
  have hend : Yields (jsonOp u) [] none AtDot := by
    rintro rest ⟨cs, rfl⟩
    rfl
  have hdot : ∀ rest, AtDot rest → EndsName rest := fun _ hrest => .inl hrest
  have hpath := many_yields hops hend hdot
  have hname : Yields (fieldName u) (nameText u bare f.name) f.name EndsName := name_yields f.name
  exact hname.bind hpath.map fun rest hrest => parts_start hops (hdot rest hrest)

theorem commaList_yields {α : Type} {item : Parser α} {texts : List (List Char)} {as : List α}
    {next' : List Char → Prop} (h : List.Forall₂ (fun text a => Yields item text a next) texts as)
    (hne : texts ≠ []) (hcomma : ∀ rest, next (',' :: rest))
    (hend : ∀ rest, next' rest → next rest ∧ rest.head? ≠ some ',') :
    Yields (commaList item) ([','].intercalate texts) as next' := by
  cases h with
  | nil => exact absurd rfl hne
  | @cons text a texts as hfirst hmore =>
    rw [intercalate_cons]
    have hparts : List.Forall₂
        (Part (do if ← eat "," then return some (← item) else return none) next)
        (texts.map (',' :: ·)) as := by
      rw [List.forall₂_map_left_iff]
      refine hmore.imp fun text a hread => ⟨by simp, fun rest hrest => ?_, fun rest => hcomma _⟩
      refine bind_ok.mpr ⟨true, text ++ rest, eat_append "," _, ?_⟩
      exact bind_ok.mpr ⟨a, rest, hread rest hrest, rfl⟩
    have hstop : Yields (do if ← eat "," then return some (← item) else return none) []
        none next' := by
      intro rest hrest
      have hmiss : Yields (eat ",") [] false next' := by
        refine eat_misses fun rest hrest => ?_
        have hhead := (hend rest hrest).2
        cases rest with
        | nil => rfl
        | cons c cs =>
          have hc : ',' ≠ c := fun hc => hhead (by rw [← hc]; rfl)
          show (',' == c && _) = false
          simp [hc]
      exact bind_ok.mpr ⟨false, rest, hmiss rest hrest, rfl⟩
    have hall := many_yields hparts hstop fun rest hrest => (hend rest hrest).1
    exact hfirst.bind hall.map fun rest hrest => parts_start hparts (hend rest hrest).1

def AtClose (rest : List Char) : Prop := ∃ cs, rest = ')' :: cs

theorem parenthesized_yields {α : Type} {items : Parser α} {a : α} (h : Yields items text a AtClose)
    (rest : List Char) :
    parenthesized items ("(".toList ++ text ++ ")".toList ++ rest) = .ok (a, rest) := by
  rw [List.append_assoc, List.append_assoc]
  refine bind_ok.mpr ⟨(), _, expect_append "(" _, ?_⟩
  refine bind_ok.mpr ⟨a, _, h _ ⟨rest, rfl⟩, ?_⟩
  exact bind_ok.mpr ⟨(), rest, expect_append ")" rest, rfl⟩

theorem quotedUpTo_yields {ends : List Char → Bool} (value : String) :
    Yields (quotedUpTo ends) (quotedText value) (some value) fun rest => ends rest = true := by
  intro rest hrest
  unfold quotedUpTo
  rw [quoted_quotedText]
  simp [hrest]

theorem listItem_yields (value : String) : Yields listItem (quotedText value) value
    fun rest => (rest.head? = some ',' || rest.head? = some ')') = true := by
  intro rest hrest
  exact bind_ok.mpr ⟨some value, rest, quotedUpTo_yields value rest hrest, rfl⟩

theorem listValue_listText (values : List String) (rest : List Char) :
    listValue (listText values ++ rest) = .ok (values, rest) := by
  unfold listText
  rw [List.append_assoc, List.append_assoc]
  refine bind_ok.mpr ⟨(), _, expect_append "(" _, ?_⟩
  cases values with
  | nil => rfl
  | cons value values =>
    have hitems : List.Forall₂ (fun text value => Yields listItem text value
          fun rest => (rest.head? = some ',' || rest.head? = some ')') = true)
        ((value :: values).map quotedText) (value :: values) := by
      rw [List.forall₂_map_left_iff, List.forall₂_same]
      exact fun value _ => listItem_yields value
    have hlist : Yields (commaList listItem) ([','].intercalate ((value :: values).map quotedText))
        (value :: values) AtClose := by
      refine commaList_yields hitems (by simp) (fun _ => rfl) ?_
      rintro rest ⟨cs, rfl⟩
      exact ⟨rfl, by simp⟩
    have hopen : eat ")" ([','].intercalate ((value :: values).map quotedText) ++
        (")".toList ++ rest)) = .ok (false, [','].intercalate ((value :: values).map quotedText) ++
        (")".toList ++ rest)) := by
      rw [List.map_cons, intercalate_cons]
      rfl
    refine bind_ok.mpr ⟨false, _, hopen, ?_⟩
    refine bind_ok.mpr ⟨_, _, hlist _ ⟨rest, rfl⟩, ?_⟩
    exact bind_ok.mpr ⟨(), rest, expect_append ")" rest, rfl⟩

def AtItemEnd (rest : List Char) : Prop := atItemEnd rest = true

theorem singleValue_yields (value : String) :
    Yields (singleValue .logic) (quotedText value) value AtItemEnd := by
  intro rest hrest
  exact bind_ok.mpr ⟨some value, rest, quotedUpTo_yields value rest hrest, rfl⟩

theorem isValue_yields (value : IsValue) :
    Yields (singleValue .logic) value.name.toList value.name AtItemEnd := by
  intro rest hrest
  have hread : Yields (takeWhile fun c => c ≠ ',' ∧ c ≠ ')') value.name.toList value.name.toList
      AtItemEnd := by
    refine takeWhile_yields ?_ ?_
    · exact List.all_eq_true.mp (by cases value <;> decide)
    · intro rest hrest c hc
      cases rest with
      | nil => cases hc
      | cons d ds =>
        cases hc
        have hend : c = ',' ∨ c = ')' := by simpa [AtItemEnd, atItemEnd] using hrest
        rcases hend with rfl | rfl <;> decide
  have hbare : bareValue (value.name.toList ++ rest) = .ok (value.name, rest) := by
    refine bind_ok.mpr ⟨_, _, hread rest hrest, ?_⟩
    rw [String.ofList_toList]
    rfl
  cases value <;> exact hbare

theorem isValue_name (value : IsValue) : isValue (lower value.name) = some value := by
  have hlower : lower value.name = value.name := by
    apply String.toList_injective
    rw [lower, String.toList_map]
    cases value <;> decide
  rw [hlower]
  cases value <;> decide

theorem simpleOp_text {op : SimpleOp} {quantifier : Option Quantifier}
    (h : quantifier.isSome = true → op ∈ QUANTIFIABLE) (rest : List Char) :
    simpleOp (op.name.toList ++ (quantifierText quantifier ++ ".".toList) ++ rest) =
      .ok (some (op, quantifier), rest) := by
  rcases quantifier with _ | _ | _
  · cases op <;> rfl
  all_goals
    cases op <;> first | rfl | exact absurd (h rfl) (by decide)

section FirstWord
variable {α β : Type} {name : α → String} {after : α → Parser (Option β)} {word : α}
  {words : List α} {cs rest : List Char}

theorem firstWord_hit {b : β} (h : after word cs = .ok (some b, rest)) :
    firstWord name after (word :: words) ((name word).toList ++ cs) =
      .ok (some (word, b), rest) := by
  unfold firstWord
  rw [get_bind]
  refine bind_ok.mpr ⟨true, cs, eat_append _ cs, ?_⟩
  exact bind_ok.mpr ⟨some b, rest, h, rfl⟩

theorem firstWord_miss (h : eat (name word) cs = .ok (false, cs)) :
    firstWord name after (word :: words) cs = firstWord name after words cs := by
  conv_lhs => unfold firstWord
  rw [get_bind]
  show (eat (name word) cs >>= _) = _
  rw [h]
  rfl

end FirstWord

theorem textSearchLang_text
    (h : ∀ l, lang = some l → l ≠ "" ∧ ∀ c ∈ l.toList, (u.letterOrNumber c || c = '_') = true)
    (rest : List Char) :
    textSearchLang u (langText lang ++ ".".toList ++ rest) = .ok (some lang, rest) := by
  cases lang with
  | none => rfl
  | some l =>
    obtain ⟨hne, hword⟩ := h l rfl
    have hread : Yields (takeWhile fun c => u.letterOrNumber c || c = '_') l.toList l.toList
        AtClose := by
      refine takeWhile_yields hword ?_
      rintro rest ⟨cs, rfl⟩ c hc
      cases hc
      rw [u.ascii ')' (by decide)]
      decide
    have hempty : l.toList.isEmpty = false := by simpa using hne
    have hlang : textSearchLang u ("(".toList ++ (l.toList ++ (").".toList ++ rest))) =
        .ok (some (some l), rest) := by
      refine bind_ok.mpr ⟨true, _, eat_append "(" _, ?_⟩
      refine bind_ok.mpr ⟨_, _, hread _ ⟨_, rfl⟩, ?_⟩
      refine bind_ok.mpr ⟨true, rest, eat_append ")." _, ?_⟩
      simp only [hempty, String.ofList_toList]
      rfl
    simpa [langText] using hlang

theorem textSearchOp_text (op : TextSearch)
    (h : ∀ l, lang = some l → l ≠ "" ∧ ∀ c ∈ l.toList, (u.letterOrNumber c || c = '_') = true)
    (rest : List Char) : textSearchOp u (op.name.toList ++ (langText lang ++ ".".toList) ++ rest) =
      .ok (some (op, lang), rest) := by
  have hlang := textSearchLang_text h rest
  rw [List.append_assoc]
  unfold textSearchOp
  cases op with
  | fts => exact firstWord_hit hlang
  | plfts =>
    rw [firstWord_miss rfl]
    exact firstWord_hit hlang
  | phfts =>
    rw [firstWord_miss rfl, firstWord_miss rfl]
    exact firstWord_hit hlang
  | wfts =>
    rw [firstWord_miss rfl, firstWord_miss rfl, firstWord_miss rfl]
    exact firstWord_hit hlang

theorem simpleOp_alone (op : SimpleOp) (cs : List Char) :
    eat "in." (op.name.toList ++ cs) = .ok (false, op.name.toList ++ cs) ∧
    eat "is." (op.name.toList ++ cs) = .ok (false, op.name.toList ++ cs) ∧
    eat "isdistinct." (op.name.toList ++ cs) = .ok (false, op.name.toList ++ cs) ∧
    textSearchOp u (op.name.toList ++ cs) = .ok (none, op.name.toList ++ cs) := by
  cases op <;> exact ⟨rfl, rfl, rfl, rfl⟩

theorem textSearch_alone (op : TextSearch) (cs : List Char) :
    eat "in." (op.name.toList ++ cs) = .ok (false, op.name.toList ++ cs) ∧
    eat "is." (op.name.toList ++ cs) = .ok (false, op.name.toList ++ cs) ∧
    eat "isdistinct." (op.name.toList ++ cs) = .ok (false, op.name.toList ++ cs) := by
  cases op <;> exact ⟨rfl, rfl, rfl⟩

theorem isdistinct_yields (value : String) :
    Yields (operationAt u .logic) (operationText (.isdistinct value)) (.isdistinct value)
      AtItemEnd := by
  intro rest hrest
  show operationAt u .logic ("isdistinct.".toList ++ quotedText value ++ rest) = _
  have hvalue := singleValue_yields value rest hrest
  rw [List.append_assoc]
  generalize quotedText value ++ rest = cs at hvalue ⊢
  have hin : eat "in." ("isdistinct.".toList ++ cs) =
      .ok (false, "isdistinct.".toList ++ cs) := rfl
  have his : eat "is." ("isdistinct.".toList ++ cs) =
      .ok (false, "isdistinct.".toList ++ cs) := rfl
  have hdistinct := eat_append "isdistinct." cs
  generalize "isdistinct.".toList ++ cs = text at hin his hdistinct ⊢
  refine bind_ok.mpr ⟨false, text, hin, bind_ok.mpr ⟨false, text, his, ?_⟩⟩
  exact bind_ok.mpr ⟨true, cs, hdistinct, bind_ok.mpr ⟨value, rest, hvalue, rfl⟩⟩

theorem operationAt_yields {operation : Operation} (h : operation.Printable u) :
    Yields (operationAt u .logic) (operationText operation) operation AtItemEnd := by
  intro rest hrest
  cases operation with
  | in_ values =>
    refine bind_ok.mpr ⟨true, listText values ++ rest, eat_append "in." _, ?_⟩
    exact bind_ok.mpr ⟨values, rest, listValue_listText values rest, rfl⟩
  | is value =>
    refine bind_ok.mpr ⟨false, _, rfl, ?_⟩
    refine bind_ok.mpr ⟨true, value.name.toList ++ rest, eat_append "is." _, ?_⟩
    refine bind_ok.mpr ⟨value.name, rest, isValue_yields value rest hrest, ?_⟩
    rw [isValue_name]
    rfl
  | isdistinct value => exact isdistinct_yields value rest hrest
  | textSearch op lang value =>
    have hlang : ∀ l, lang = some l →
        l ≠ "" ∧ ∀ c ∈ l.toList, (u.letterOrNumber c || c = '_') = true := by
      rintro l rfl
      exact h
    have hop := textSearchOp_text op hlang (quotedText value ++ rest)
    obtain ⟨hin, his, hdistinct⟩ :=
      textSearch_alone op (langText lang ++ ".".toList ++ (quotedText value ++ rest))
    unfold operationText
    rw [List.append_assoc] at hop
    rw [List.append_assoc, List.append_assoc]
    generalize op.name.toList ++ _ = text at hop hin his hdistinct ⊢
    refine bind_ok.mpr ⟨false, _, hin, bind_ok.mpr ⟨false, _, his, ?_⟩⟩
    refine bind_ok.mpr ⟨false, _, hdistinct, bind_ok.mpr ⟨some (op, lang), _, hop, ?_⟩⟩
    exact bind_ok.mpr ⟨value, rest, singleValue_yields value rest hrest, rfl⟩
  | simple op quantifier value =>
    have hquantifier : quantifier.isSome = true → op ∈ QUANTIFIABLE := by
      intro hsome
      cases quantifier with
      | none => cases hsome
      | some q => exact h
    have hop := simpleOp_text hquantifier (quotedText value ++ rest)
    obtain ⟨hin, his, hdistinct, hsearch⟩ := simpleOp_alone (u := u) op
      (quantifierText quantifier ++ ".".toList ++ (quotedText value ++ rest))
    unfold operationText
    rw [List.append_assoc] at hop
    rw [List.append_assoc, List.append_assoc]
    generalize op.name.toList ++ _ = text at hop hin his hdistinct hsearch ⊢
    refine bind_ok.mpr ⟨false, _, hin, bind_ok.mpr ⟨false, _, his, ?_⟩⟩
    refine bind_ok.mpr ⟨false, _, hdistinct, bind_ok.mpr ⟨none, _, hsearch, ?_⟩⟩
    refine bind_ok.mpr ⟨some (op, quantifier), _, hop, ?_⟩
    exact bind_ok.mpr ⟨value, rest, singleValue_yields value rest hrest, rfl⟩

theorem operationText_not (operation : Operation) (rest : List Char) :
    eat "not." (operationText operation ++ rest) =
      .ok (false, operationText operation ++ rest) := by
  cases operation with
  | in_ => rfl
  | is => rfl
  | isdistinct => rfl
  | textSearch op => cases op <;> rfl
  | simple op => cases op <;> rfl

theorem logicFilter_yields {f : Filter} (h : f.Printable u) :
    Yields (logicFilter u) (filterText u bare f) (.filter f) AtItemEnd := by
  intro rest hrest
  obtain ⟨hfield, hoperation⟩ := h
  have hname : Yields (field u) (fieldText u bare f.field) f.field AtDot := field_yields hfield
  have hop := operationAt_yields hoperation rest hrest
  unfold filterText
  simp only [List.append_assoc]
  refine bind_ok.mpr ⟨f.field, _, hname _ ⟨_, rfl⟩, ?_⟩
  refine bind_ok.mpr ⟨(), _, expect_append "." _, ?_⟩
  have hnot : eat "not." (notText f.expr.negate ++ (operationText f.expr.operation ++ rest)) =
      .ok (f.expr.negate, operationText f.expr.operation ++ rest) := by
    cases f.expr.negate with
    | false => exact operationText_not _ rest
    | true => exact eat_append "not." _
  refine bind_ok.mpr ⟨f.expr.negate, _, hnot, bind_ok.mpr ⟨f.expr.operation, rest, hop, ?_⟩⟩
  refine bind_ok.mpr ⟨(), rest, ?_, rfl⟩
  unfold expectItemEnd
  rw [get_bind, if_pos (show atItemEnd rest = true from hrest)]
  rfl

theorem keyword_plain {name : String} (h : name = "and" ∨ name = "or" ∨ name = "not") :
    plain u name = true := by
  have hletter : ∀ c : Char, c.val < 128 → c.isAlphanum = true → isIdentChar u c = true := by
    intro c hc hletter
    rw [isIdentChar_ascii hc, hletter]
    rfl
  have hparts : ∀ cs : List Char, cs.splitOn '-' = [cs] → cs ≠ [] →
      cs.all (fun c => c.val < 128 && c.isAlphanum) = true →
      (cs.splitOn '-').all (fun part => !part.isEmpty && part.all (isIdentChar u)) = true := by
    intro cs hcs hne hall
    rw [hcs]
    simp only [List.all_cons, List.all_nil, Bool.and_true, Bool.and_eq_true, List.all_eq_true]
    refine ⟨by simpa using hne, fun c hc => ?_⟩
    have hgood := List.all_eq_true.mp hall c hc
    rw [Bool.and_eq_true, decide_eq_true_eq] at hgood
    exact hletter c hgood.1 hgood.2
  rcases h with rfl | rfl | rfl
  all_goals exact hparts _ (by decide) (by decide) (by decide)

theorem keyword_field (name : String) (h : name = "and" ∨ name = "or" ∨ name = "not")
    {c : Char} (hc : c = '(' ∨ c = '.') (cs : List Char) :
    field u (name.toList ++ c :: cs) = .ok ({ name, json := [] }, c :: cs) := by
  have hends : EndsName (c :: cs) := by
    rcases hc with rfl | rfl
    · exact .inr (.inl ⟨cs, rfl⟩)
    · exact .inl ⟨cs, rfl⟩
  refine bind_ok.mpr ⟨name, c :: cs, plain_yields (keyword_plain h) _ hends, ?_⟩
  have hpath : jsonPath u (c :: cs) = .ok ([], c :: cs) := by
    rcases hc with rfl | rfl <;> rfl
  exact bind_ok.mpr ⟨[], c :: cs, hpath, rfl⟩

theorem logicFilter_rejects (negate : Bool) (op : LogicOp) :
    Rejects (logicFilter u) (notText negate ++ (op.name.toList ++ "(".toList)) := by
  have hname : op.name = "and" ∨ op.name = "or" := by cases op <;> simp [LogicOp.name]
  intro rest
  cases negate with
  | false =>
    have hfield := keyword_field (u := u) op.name (c := '(')
      (hname.elim .inl fun h => .inr (.inl h)) (.inl rfl) rest
    refine ⟨"expecting \".\"", '(' :: rest, ?_⟩
    show logicFilter u ((op.name.toList ++ "(".toList) ++ rest) = _
    rw [List.append_assoc]
    show (field u (op.name.toList ++ '(' :: rest) >>= _) = _
    rw [hfield]
    rfl
  | true =>
    have hfield := keyword_field (u := u) "not" (c := '.') (.inr (.inr rfl)) (.inr rfl)
      (op.name.toList ++ '(' :: rest)
    refine ⟨"expecting an operator", op.name.toList ++ '(' :: rest, ?_⟩
    show logicFilter u ("not.".toList ++ (op.name.toList ++ "(".toList) ++ rest) = _
    rw [List.append_assoc, List.append_assoc]
    show (field u ("not".toList ++ '.' :: (op.name.toList ++ '(' :: rest)) >>= _) = _
    rw [hfield]
    cases op <;> rfl

theorem treeTexts_eq_map : ∀ trees, treeTexts u bare trees = trees.map (treeText u bare)
  | [] => rfl
  | tree :: trees => by rw [treeTexts, treeTexts_eq_map trees, List.map_cons]

theorem logicTree_filter {f : Filter} (h : f.Printable u) :
    Yields (logicTree u forest) (filterText u bare f) (.filter f) AtItemEnd := by
  have hfilter : Yields (logicFilter u) (filterText u bare f) (.filter f) AtItemEnd :=
    logicFilter_yields h
  intro rest hrest
  exact bind_ok.mpr ⟨some (.filter f), rest, attempt_yields hfilter rest hrest, rfl⟩

theorem logicTree_group {children : List LogicTree} (negate : Bool) (op : LogicOp)
    (h : Yields forest text children AtClose) : Yields (logicTree u forest)
      (notText negate ++ op.name.toList ++ ("(".toList ++ text ++ ")".toList))
      (.expr negate op children) next := by
  intro rest _
  have hgroup : parenthesized forest ("(".toList ++ text ++ ")".toList ++ rest) =
      .ok (children, rest) := parenthesized_yields h rest
  have hreject : attempt (logicFilter u) (notText negate ++ (op.name.toList ++ "(".toList) ++
      (text ++ (")".toList ++ rest))) = _ := attempt_rejects (logicFilter_rejects negate op) _
  simp only [List.append_assoc] at hgroup hreject ⊢
  generalize "(".toList ++ (text ++ (")".toList ++ rest)) = cs at hgroup hreject ⊢
  have hnot : eat "not." (notText negate ++ (op.name.toList ++ cs)) =
      .ok (negate, op.name.toList ++ cs) := by
    cases negate with
    | false => cases op <;> rfl
    | true => exact eat_append "not." _
  refine bind_ok.mpr ⟨none, _, hreject, bind_ok.mpr ⟨negate, _, hnot, ?_⟩⟩
  cases op with
  | and =>
    refine bind_ok.mpr ⟨true, cs, eat_append "and" cs, ?_⟩
    exact bind_ok.mpr ⟨children, rest, hgroup, rfl⟩
  | or =>
    refine bind_ok.mpr ⟨false, _, rfl, bind_ok.mpr ⟨true, cs, eat_append "or" cs, ?_⟩⟩
    exact bind_ok.mpr ⟨children, rest, hgroup, rfl⟩

theorem logicForest_yields {fuel : ℕ} (hne : trees ≠ [])
    (h : ∀ tree ∈ trees, Yields (logicTree u (logicForest u fuel)) (treeText u bare tree) tree
      AtItemEnd) :
    Yields (logicForest u (fuel + 1)) ([','].intercalate (treeTexts u bare trees)) trees
      AtClose := by
  have htexts : treeTexts u bare trees ≠ [] := by simpa [treeTexts_eq_map] using hne
  have hall : List.Forall₂ (fun text tree => Yields (logicTree u (logicForest u fuel)) text tree
      AtItemEnd) (treeTexts u bare trees) trees := by
    rw [treeTexts_eq_map, List.forall₂_map_left_iff, List.forall₂_same]
    exact h
  refine commaList_yields hall htexts (fun _ => rfl) ?_
  rintro rest ⟨cs, rfl⟩
  exact ⟨rfl, by simp⟩

theorem length_le_intercalate {c : Char} {text : List Char} :
    ∀ {texts : List (List Char)}, text ∈ texts → text.length ≤ ([c].intercalate texts).length
  | [], h => (List.not_mem_nil h).elim
  | [t], h => by
    rw [List.mem_singleton] at h
    simp [h]
  | t :: t' :: texts, h => by
    rw [List.intercalate_cons_cons, List.length_append, List.length_append]
    rcases List.mem_cons.mp h with rfl | hmem
    · omega
    · have hle := length_le_intercalate hmem (c := c)
      omega

theorem treeText_yields {tree : LogicTree} (h : tree.Printable u) : ∀ fuel,
    (treeText u bare tree).length ≤ fuel →
    Yields (logicTree u (logicForest u fuel)) (treeText u bare tree) tree AtItemEnd := by
  induction h with
  | filter f hf =>
    intro fuel _
    rw [treeText]
    exact logicTree_filter hf
  | expr negate op children hne _ ih =>
    intro fuel hle
    rw [treeText] at hle ⊢
    rw [List.length_append, List.length_append, List.length_append, List.length_append] at hle
    have hopen : "(".toList.length = 1 := rfl
    cases fuel with
    | zero => omega
    | succ fuel =>
      refine logicTree_group negate op (logicForest_yields hne fun tree htree => ?_)
      have hmem : treeText u bare tree ∈ treeTexts u bare children := by
        rw [treeTexts_eq_map]
        exact List.mem_map_of_mem htree
      have hchild := length_le_intercalate (c := ',') hmem
      exact ih tree htree fuel (by omega)

theorem parseLogicValue_groupText (hne : trees ≠ []) (h : ∀ tree ∈ trees, tree.Printable u)
    (op : LogicOp) (negate : Bool) (key : String) :
    parseLogicValue u op negate (.ofList (groupText u bare trees)) key =
      .ok (.expr negate op trees) := by
  have hparse : parenthesized (logicForest u ((groupText u bare trees).length + 1))
      (groupText u bare trees ++ []) = .ok (trees, []) := by
    have hforest : Yields (logicForest u ((groupText u bare trees).length + 1))
        ([','].intercalate (treeTexts u bare trees)) trees AtClose := by
      refine logicForest_yields hne fun tree htree => ?_
      refine treeText_yields (h tree htree) _ ?_
      have hmem : treeText u bare tree ∈ treeTexts u bare trees := by
        rw [treeTexts_eq_map]
        exact List.mem_map_of_mem htree
      have hchild := length_le_intercalate (c := ',') hmem
      unfold groupText
      rw [List.length_append, List.length_append]
      omega
    exact parenthesized_yields hforest []
  rw [List.append_nil] at hparse
  unfold parseLogicValue parse
  rw [String.length_ofList, String.toList_ofList]
  have hall : (do
      let children ← parenthesized (logicForest u ((groupText u bare trees).length + 1))
      expectDone "after the closing \")\""
      return LogicTree.expr negate op children : Parser LogicTree) (groupText u bare trees) =
        .ok (.expr negate op trees, []) :=
    bind_ok.mpr ⟨trees, [], hparse, bind_ok.mpr ⟨(), [], rfl, rfl⟩⟩
  rw [hall]

theorem parseOpExpr_in (negate : Bool) (values : List String) (column : String) :
    parseOpExpr u (.ofList (notText negate ++ operationText (.in_ values))) column =
      .ok { negate, operation := .in_ values } := by
  have hnot : eat "not." (notText negate ++ operationText (.in_ values)) =
      .ok (negate, operationText (.in_ values)) := by
    cases negate with
    | false => rfl
    | true => exact eat_append "not." _
  have hin : operationAt u .query (operationText (.in_ values)) = .ok (.in_ values, []) := by
    have hlist := listValue_listText values []
    rw [List.append_nil] at hlist
    refine bind_ok.mpr ⟨true, listText values, eat_append "in." _, ?_⟩
    exact bind_ok.mpr ⟨values, [], hlist, rfl⟩
  unfold parseOpExpr parse
  rw [String.toList_ofList]
  have hall : (do
      let negate ← eat "not."
      return { negate, operation := ← operationAt u .query } : Parser OpExpr)
        (notText negate ++ operationText (.in_ values)) =
        .ok ({ negate, operation := .in_ values }, []) :=
    bind_ok.mpr ⟨negate, _, hnot, bind_ok.mpr ⟨.in_ values, [], hin, rfl⟩⟩
  rw [hall]

/-- What is printed is read back, to its end. -/
theorem printed_reads_back (u : Unicode) (bare : String → Bool) :
    (∀ negate op trees key, (LogicTree.expr negate op trees).Printable u →
      parseLogicValue u op negate (.ofList (groupText u bare trees)) key =
        .ok (.expr negate op trees)) ∧
    (∀ values rest, listValue (listText values ++ rest) = .ok (values, rest)) ∧
    ∀ negate values column,
      parseOpExpr u (.ofList (notText negate ++ operationText (.in_ values))) column =
        .ok { negate, operation := .in_ values } := by
  refine ⟨fun negate op trees key h => ?_, listValue_listText, parseOpExpr_in⟩
  cases h with
  | expr _ _ _ hne hall => exact parseLogicValue_groupText hne hall op negate key

theorem not_or_reads_back :
    let u : Unicode := ⟨Char.isAlphanum, fun _ _ => rfl⟩
    let trees : List LogicTree :=
      [.expr true .and [
        .filter ⟨⟨"not", []⟩, true, .simple .like (some .any) "a,\"b\\)"⟩,
        .filter ⟨⟨"a.b", [⟨.json, "-1", true⟩, ⟨.text, "2", false⟩]⟩, false, .in_ ["", "x)"]⟩]]
    groupText u (fun _ => true) trees = ("(not.and(not.not.like(any).\"a,\\\"b\\\\)\"," ++
        "\"a.b\"->-1->>\"2\".in.(\"\",\"x)\")))").toList ∧
      parseLogicValue u .or true (.ofList (groupText u (fun _ => true) trees)) "not.or" =
        .ok (.expr true .or trees) := by
  intro u trees
  refine ⟨by decide +kernel, (printed_reads_back u fun _ => true).1 true .or trees "not.or" ?_⟩
  refine .expr _ _ _ (by simp [trees]) fun tree htree => ?_
  rw [List.mem_singleton.mp htree]
  refine .expr _ _ _ (by simp) fun tree htree => ?_
  rcases List.mem_pair.mp htree with rfl | rfl
  · have hlike : SimpleOp.like ∈ QUANTIFIABLE := by decide
    exact .filter _ ⟨by simp, hlike⟩
  · refine .filter _ ⟨fun op hop => ?_, trivial⟩
    rcases List.mem_pair.mp hop with rfl | rfl
    · exact fun _ => ⟨['-'], ['1'], by decide, .inr rfl, by decide, by simp⟩
    · exact fun h => absurd h (by decide)

end Kindred.Rest
