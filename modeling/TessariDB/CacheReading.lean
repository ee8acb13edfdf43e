import TessariDB.CacheRenderers
import TessariDB.StatementReading
import TessariDB.Templates

/-!
# A Cache's Statements, Read Back

The statements of a cache and of its containers as a language with fixed forms. A form is a text
with holes: for the names of the tenancy and of the space, and in some forms for one thing more, a
number or a list of references. The caller's data stands in no form; it is looked up among the
parameters under the names that a form mentions.

A call is `Plain` where the cache's own methods can make it: its condition, its verb and its
function are words of the language, and no list is empty.

## Main results

* `readForm_eq_some_iff`: a script is of one form at most.
* `CacheCall.read_render`: every plain call is read back from its script and its parameters.
-/

namespace TessariDB

open ByteCodec Utf8 Text References Infix Grammar Templates

/-! ### Forms -/

/-- What stands in a hole: letters, digits and underscores, or anything before a semicolon. -/
inductive Hole where
  | word
  | list
  deriving DecidableEq

def Hole.kind : Hole → CodePoint → Bool
  | .word => isWord
  | .list => fun c => decide (c ≠ codePoint 0x3B)

/-- When a value is stored. -/
inductive Stored where
  | always
  | ifAbsent
  | ifPresent
  | ifEqual
  deriving DecidableEq

def Stored.text : Stored → Str
  | .always => ofString ""
  | .ifAbsent => ofString " IF ABSENT"
  | .ifPresent => ofString " IF PRESENT"
  | .ifEqual => ofString " IF = $e"

/-- The forms of the language. A flag says of an optional clause that it is there, or which of
two words is. -/
inductive CacheForm where
  | get
  | set (stored : Stored) (expires : Bool)
  | delete
  | incr
  | ttl
  | expire
  | persist
  | keys (before after : Bool)
  | lock
  | extend
  | release
  | listPush (front : Bool)
  | listPop (front limited : Bool)
  | listRange
  | listAt
  | listLen
  | listRemove (limited : Bool)
  | listTrim
  | hashSet
  | hashGet
  | hashRemove
  | hashIncr
  | hashLen
  | members (adds : Bool)
  | membersHas
  | membersLen
  | scoresAdd
  | scoresIncr
  | scoresRemove
  | scoresOf (rank : Bool)
  | scoresRange
  | scoresBetween (low high : Bool)

namespace CacheForm

/-- A clause that is there or not. -/
def optional (flag : Bool) (text : String) : Str := if flag then ofString text else []

/-- The end of a list. -/
def endOf (front : Bool) : Str := if front then ofString "FRONT" else ofString "BACK"

/-- The text of a form before its space. -/
def before : CacheForm → Str
  | .get => "GET "
  | .set _ _ | .lock | .extend | .release => "SET "
  | .delete => "DELETE "
  | .incr => "INCR "
  | .ttl => "RETURN TTL "
  | .expire => "EXPIRE "
  | .persist => "PERSIST "
  | .keys _ _ => "KEYS FROM "
  | .listPush _ => "LIST PUSH "
  | .listPop _ _ => "LIST POP "
  | .listRange => "RETURN array::slice(GET "
  | .listAt => "RETURN array::at(GET "
  | .listLen => "RETURN array::len(GET "
  | .listRemove _ => "LIST REMOVE "
  | .listTrim => "LIST TRIM "
  | .hashSet => "HASH SET "
  | .hashGet => "RETURN object::get(GET "
  | .hashRemove => "HASH REMOVE "
  | .hashIncr => "HASH INCR "
  | .hashLen => "RETURN object::len(GET "
  | .members true => "MEMBERS ADD "
  | .members false => "MEMBERS REMOVE "
  | .membersHas => "RETURN $v IN GET "
  | .membersLen => "RETURN set::len(GET "
  | .scoresAdd => "SCORES ADD "
  | .scoresIncr => "SCORES INCR "
  | .scoresRemove => "SCORES REMOVE "
  | .scoresOf true => "RETURN scores::rank(GET "
  | .scoresOf false => "RETURN scores::score(GET "
  | .scoresRange => "RETURN scores::range(GET "
  | .scoresBetween _ _ => "RETURN scores::between(GET "

/-- The text behind the space, up to the last hole where there is one more. -/
def behind : CacheForm → Str
  | .get | .ttl | .persist | .membersHas => ":$k;"
  | .set stored expires => ":$k = $v" ++ stored.text ++ optional expires " EXPIRE $t" ++ ";"
  | .delete => ":$k RETURN BEFORE;"
  | .incr => ":$k BY $n;"
  | .expire => ":$k $t;"
  | .keys before after => optional before " PREFIX $p" ++ optional after " AFTER $a" ++ " LIMIT "
  | .lock => ":$k = $h IF ABSENT EXPIRE $t;"
  | .extend => ":$k = $h IF = $h EXPIRE $t;"
  | .release => ":$k = 'free' IF = $h EXPIRE 1ms;"
  | .listPush front => ":$k " ++ endOf front ++ " "
  | .listPop front limited => ":$k " ++ endOf front ++ optional limited " LIMIT $n" ++ ";"
  | .listRange => ":$k, $i, $n);"
  | .listAt => ":$k, $i);"
  | .listLen | .hashLen | .membersLen => ":$k);"
  | .listRemove limited => ":$k $v" ++ optional limited " LIMIT $n" ++ ";"
  | .listTrim => ":$k FROM $i TO $j;"
  | .hashSet | .hashRemove | .members _ | .scoresAdd | .scoresRemove => ":$k "
  | .hashGet => ":$k, $f);"
  | .hashIncr => ":$k $f BY $n;"
  | .scoresIncr => ":$k $m BY $c;"
  | .scoresOf _ => ":$k, $m);"
  | .scoresRange => ":$k, $i, $j);"
  | .scoresBetween low high =>
      ":$k, " ++ (if low then "$lo" else "NONE") ++ ", " ++ (if high then "$hi" else "NONE") ++ ");"

/-- The last hole, which a semicolon follows. -/
def last : CacheForm → Option Hole
  | .keys _ _ => some .word
  | .listPush _ | .hashSet | .hashRemove | .members _ | .scoresAdd | .scoresRemove => some .list
  | _ => none

/-- A form without its tenancy. -/
def statement (form : CacheForm) : Template Hole CodePoint :=
  literal form.before ++ .hole .word :: (literal form.behind ++ match form.last with
    | none => []
    | some hole => .hole hole :: literal (ofString ";"))

def template (form : CacheForm) : Template Hole CodePoint :=
  literal (ofString "USE NAMESPACE ") ++ .hole .word :: (literal (ofString "; USE DATABASE ") ++
    .hole .word :: (literal (ofString "; ") ++ form.statement))

/-- All the forms. -/
def all : List CacheForm :=
  [.get, .set .always true, .set .always false, .set .ifAbsent true, .set .ifAbsent false,
    .set .ifPresent true, .set .ifPresent false, .set .ifEqual true, .set .ifEqual false, .delete,
    .incr, .ttl, .expire, .persist, .keys true true, .keys true false, .keys false true,
    .keys false false, .lock, .extend, .release, .listPush true, .listPush false,
    .listPop true true, .listPop true false, .listPop false true, .listPop false false, .listRange,
    .listAt, .listLen, .listRemove true, .listRemove false, .listTrim, .hashSet, .hashGet,
    .hashRemove, .hashIncr, .hashLen, .members true, .members false, .membersHas, .membersLen,
    .scoresAdd, .scoresIncr, .scoresRemove, .scoresOf true, .scoresOf false, .scoresRange,
    .scoresBetween true true, .scoresBetween true false, .scoresBetween false true,
    .scoresBetween false false]

theorem mem_all (form : CacheForm) : form ∈ all := by
  rw [all]
  cases form with
  | set stored expires => cases stored <;> cases expires <;> simp
  | keys before after => cases before <;> cases after <;> simp
  | listPop front limited => cases front <;> cases limited <;> simp
  | scoresBetween low high => cases low <;> cases high <;> simp
  | listPush flag | listRemove flag | members flag | scoresOf flag => cases flag <;> simp
  | _ => simp

/-- The forms part from each other, and their holes end. -/
theorem apart_statements : (∀ form ∈ all, Tidy Hole.kind form.statement) ∧
    all.Pairwise fun form form' => Templates.Apart Hole.kind form.statement form'.statement := by
  decide +kernel

/-- The tenancy before two forms does not bring them together. -/
theorem readForm_eq_some_iff {script : Str} {form : CacheForm} {words : List Str} :
    readFirst Hole.kind template all script = some (form, words) ↔
      Fits Hole.kind form.template words ∧ script = fill form.template words := by
  obtain ⟨htidy, hapart⟩ := apart_statements
  have huse : Break (Hole.kind .word) (ofString "; USE DATABASE ") := by decide
  have hend : Break (Hole.kind .word) (ofString "; ") := by decide
  have hall : ∀ form ∈ all, Tidy Hole.kind form.template := by
    intro form hform
    rw [template, tidy_literal, tidy_hole (by decide) huse, tidy_hole (by decide) hend]
    exact htidy form hform
  have hpairs : all.Pairwise fun form form' =>
      Templates.Apart Hole.kind form.template form'.template := by
    refine hapart.imp fun h => ?_
    rw [template, template, apart_literal, apart_hole, apart_literal, apart_hole, apart_literal]
    exact h
  rw [readFirst_eq_some_iff hall hpairs, and_iff_right (mem_all form)]

end CacheForm

/-! ### Parameters -/

/-- A parameter of a script. -/
def given (ps : List (Str × Value)) (name : String) : Option Value := Dict.get? ps (ofString name)

def givenText (ps : List (Str × Value)) (name : String) : Option Str :=
  match given ps name with
  | some (.text t) => some t
  | _ => none

def givenInteger (ps : List (Str × Value)) (name : String) : Option ℤ :=
  match given ps name with
  | some (.integer n) => some n
  | _ => none

def givenFloat (ps : List (Str × Value)) (name : String) : Option Double :=
  match given ps name with
  | some (.float x) => some x
  | _ => none

def givenDuration (ps : List (Str × Value)) (name : String) : Option Duration :=
  match given ps name with
  | some (.duration seconds nanos) => some ⟨seconds, nanos⟩
  | _ => none

/-- A parameter that is there where a clause mentions it. -/
def givenWhere {α : Type} (flag : Bool) (found : Option α) : Option (Option α) :=
  if flag then found.map some else some none

/-- References behind their mark, with commas between them. -/
def referenceText (reference : Reference) : Str := ofString "$" ++ reference.text

def pairText (p : Reference × Reference) : Str :=
  referenceText p.1 ++ (ofString " = " ++ referenceText p.2)

def readReference : Infix.Reader CodePoint Reference :=
  readAfter (ofString "$") (readRun isWord referenceOf)

def readPairOf : Infix.Reader CodePoint (Reference × Reference) :=
  readPair readReference (readAfter (ofString " = ") readReference)

/-- A list with commas in it, up to the semicolon of its statement. -/
def readListed {α : Type} (read : Infix.Reader CodePoint α) (text : Str) : Option (α × List α) :=
  readAll (readBefore (readSeparated (ofString ", ") read) (ofString ";")) (text ++ ofString ";")

/-- What the references of a list are bound to. -/
def givenList (ps : List (Str × Value)) (text : Str) : Option (List Value) := do
  let references ← readListed readReference text
  (references.1 :: references.2).mapM fun reference => Dict.get? ps reference.text

def givenPairs (ps : List (Str × Value)) (text : Str) : Option (List (Value × Value)) := do
  let pairs ← readListed readPairOf text
  (pairs.1 :: pairs.2).mapM fun p => do
    return (← Dict.get? ps p.1.text, ← Dict.get? ps p.2.text)

def textOf : Value → Option Str
  | .text t => some t
  | _ => none

def floatOf : Value → Option Double
  | .float x => some x
  | _ => none

/-- The call of a form, with the word of its last hole. -/
def CacheForm.call (ps : List (Str × Value)) : CacheForm → List Str → Option CacheCall
  | .get, [] => return .get (← givenText ps "k")
  | .set stored expires, [] => do
      let expected ← givenWhere (stored = .ifEqual) (given ps "e")
      let lasting ← givenWhere expires (givenDuration ps "t")
      return .set (← givenText ps "k") (← given ps "v") stored.text expected lasting
  | .delete, [] => return .delete (← givenText ps "k")
  | .incr, [] => return .incr (← givenText ps "k") (← givenInteger ps "n")
  | .ttl, [] => return .ttl (← givenText ps "k")
  | .expire, [] => return .expire (← givenText ps "k") (← givenDuration ps "t")
  | .persist, [] => return .persist (← givenText ps "k")
  | .keys before after, [limit] => do
      let before ← givenWhere before (givenText ps "p")
      let after ← givenWhere after (givenText ps "a")
      return .keys before after (← countOf limit).value
  | .lock, [] => return .lock (← givenText ps "k") (← givenText ps "h") (← givenDuration ps "t")
  | .extend, [] =>
      return .extend (← givenText ps "k") (← givenText ps "h") (← givenDuration ps "t")
  | .release, [] => return .release (← givenText ps "k") (← givenText ps "h")
  | .listPush front, [list] =>
      return .listPush (← givenText ps "k") (← givenList ps list) front
  | .listPop front limited, [] => do
      let count ← givenWhere limited (givenInteger ps "n")
      return .listPop (← givenText ps "k") front count
  | .listRange, [] =>
      return .listRange (← givenText ps "k") (← givenInteger ps "i") (← givenInteger ps "n")
  | .listAt, [] => return .listAt (← givenText ps "k") (← givenInteger ps "i")
  | .listLen, [] => return .listLen (← givenText ps "k")
  | .listRemove limited, [] => do
      let count ← givenWhere limited (givenInteger ps "n")
      return .listRemove (← givenText ps "k") (← given ps "v") count
  | .listTrim, [] =>
      return .listTrim (← givenText ps "k") (← givenInteger ps "i") (← givenInteger ps "j")
  | .hashSet, [list] => do
      let pairs ← givenPairs ps list
      let fields ← pairs.mapM fun p => return (← textOf p.1, p.2)
      return .hashSet (← givenText ps "k") fields
  | .hashGet, [] => return .hashGet (← givenText ps "k") (← givenText ps "f")
  | .hashRemove, [list] => do
      let values ← givenList ps list
      return .hashRemove (← givenText ps "k") (← values.mapM textOf)
  | .hashIncr, [] =>
      return .hashIncr (← givenText ps "k") (← givenText ps "f") (← givenInteger ps "n")
  | .hashLen, [] => return .hashLen (← givenText ps "k")
  | .members adds, [list] =>
      return .members (if adds then "ADD" else "REMOVE") (← givenText ps "k") (← givenList ps list)
  | .membersHas, [] => return .membersHas (← givenText ps "k") (← given ps "v")
  | .membersLen, [] => return .membersLen (← givenText ps "k")
  | .scoresAdd, [list] => do
      let pairs ← givenPairs ps list
      let scores ← pairs.mapM fun p => return (← textOf p.1, ← floatOf p.2)
      return .scoresAdd (← givenText ps "k") scores
  | .scoresIncr, [] =>
      return .scoresIncr (← givenText ps "k") (← givenText ps "m") (← givenFloat ps "c")
  | .scoresRemove, [list] => do
      let values ← givenList ps list
      return .scoresRemove (← givenText ps "k") (← values.mapM textOf)
  | .scoresOf rank, [] =>
      return .scoresOf (if rank then "rank" else "score") (← givenText ps "k") (← givenText ps "m")
  | .scoresRange, [] =>
      return .scoresRange (← givenText ps "k") (← givenInteger ps "i") (← givenInteger ps "j")
  | .scoresBetween low high, [] => do
      let low ← givenWhere low (givenFloat ps "lo")
      let high ← givenWhere high (givenFloat ps "hi")
      return .scoresBetween (← givenText ps "k") low high
  | _, _ => none

/-- A script and its parameters, read as a call on a handle. -/
def CacheCall.read (script : Str) (ps : List (Str × Value)) :
    Option (CacheStatements × CacheCall) :=
  match readFirst Hole.kind CacheForm.template CacheForm.all script with
  | some (form, inNamespace :: inDatabase :: space :: words) => do
      let s := ⟨← nameOf inNamespace, ← nameOf inDatabase, ← nameOf space⟩
      return (s, ← form.call ps words)
  | _ => none

/-! ### Forms of a handle -/

theorem Name.text_ne_nil (name : Name) : name.text ≠ [] := by
  intro hnil
  have hvalid := name.valid
  rw [hnil] at hvalid
  exact hvalid

namespace CacheStatements

variable (s : CacheStatements) {ps : List (Str × Value)} {call : CacheCall} {script : Str}

theorem fits_tenancy {t : Template Hole CodePoint} {words : List Str}
    (h : Fits Hole.kind t words) (before : Str) : Fits Hole.kind
      (literal (ofString "USE NAMESPACE ") ++ .hole .word ::
        (literal (ofString "; USE DATABASE ") ++ .hole .word ::
          (literal (ofString "; ") ++ (literal before ++ .hole .word :: t))))
      (s.inNamespace.text :: s.inDatabase.text :: s.space.text :: words) := by
  have hname : ∀ (name : Name) {t : Template Hole CodePoint} {words : List Str},
      Fits Hole.kind t words → Fits Hole.kind (.hole .word :: t) (name.text :: words) :=
    fun name _ _ h => .hole name.text_ne_nil (fun c hc => decide_eq_true (name.words c hc)) h
  exact (hname _ ((hname _ (((hname _ h).literal _).literal _)).literal _)).literal _

/-- A script that is a form filled in. -/
theorem read_of_fill {form : CacheForm} {t : Template Hole CodePoint} {words : List Str}
    (hstatement : form.statement = literal form.before ++ .hole .word :: t)
    (hfits : Fits Hole.kind t words)
    (hscript : script = s.tenancy ++ (form.before ++ (s.space.text ++ fill t words)))
    (hcall : form.call ps words = some call) : CacheCall.read script ps = some (s, call) := by
  have htemplate : form.template = literal (ofString "USE NAMESPACE ") ++ .hole .word ::
      (literal (ofString "; USE DATABASE ") ++ .hole .word :: (literal (ofString "; ") ++
        (literal form.before ++ .hole .word :: t))) := by
    rw [CacheForm.template, hstatement]
  have hfilled : script = fill form.template
      (s.inNamespace.text :: s.inDatabase.text :: s.space.text :: words) := by
    rw [htemplate, hscript]
    simp only [fill_literal, fill_hole, tenancy, TessariDB.tenancy, List.append_assoc]
  have hread := CacheForm.readForm_eq_some_iff.mpr
    ⟨htemplate ▸ s.fits_tenancy hfits form.before, hfilled⟩
  have hname : ∀ name : Name, nameOf name.text = some name := fun name =>
    (nameOf_eq_some_iff _ _).mpr rfl
  rw [CacheCall.read, hread]
  simp only [hname, hcall, Option.bind_eq_bind, Option.bind_some]
  rfl

/-- A form without a last hole. -/
theorem read_form (form : CacheForm) (hlast : form.last = none)
    (hscript : script = s.tenancy ++ (form.before ++ (s.space.text ++ form.behind)))
    (hcall : form.call ps [] = some call) : CacheCall.read script ps = some (s, call) := by
  refine s.read_of_fill (t := literal form.behind ++ []) ?_ (Fits.nil.literal _) ?_ hcall
  · rw [CacheForm.statement, hlast]
  · rw [hscript, fill_literal, fill_nil, List.append_nil]

/-- A form with a last hole. -/
theorem read_form_last (form : CacheForm) (hole : Hole) (hlast : form.last = some hole) {word : Str}
    (hne : word ≠ []) (hword : ∀ c ∈ word, hole.kind c = true)
    (hscript : script = s.tenancy ++ (form.before ++ (s.space.text ++ (form.behind ++
      (word ++ ofString ";"))))) (hcall : form.call ps [word] = some call) :
    CacheCall.read script ps = some (s, call) := by
  have hend : Fits Hole.kind (literal (ofString ";") ++ []) [] := Fits.nil.literal _
  refine s.read_of_fill (t := literal form.behind ++ .hole hole :: (literal (ofString ";") ++ []))
    ?_ ((Fits.hole hne hword hend).literal _) ?_ hcall
  · rw [CacheForm.statement, hlast, List.append_nil]
  · rw [hscript, fill_literal, fill_hole, fill_literal, fill_nil, List.append_nil]

end CacheStatements

/-! ### Lists of references -/

theorem parses_referenceText : Parses referenceText Cutoff readReference :=
  parses_reference.after (ofString "$")

theorem parses_pairText : Parses pairText Cutoff readPairOf :=
  parses_referenceText.pair (parses_referenceText.after (ofString " = ")) fun p rest _ => by
    rw [List.append_assoc]
    exact cutoff_append (by decide) (by decide) _

/-- **A list is read up to its semicolon.** -/
theorem readListed_join {α : Type} {write : α → Str} {read : Infix.Reader CodePoint α}
    (h : Parses write Cutoff read) (a : α) (as : List α) :
    readListed read (join ", " ((a :: as).map write)) = some (a, as) := by
  have hcut := cutoff_of_begins [ofString ", ", ofString ";"] (by decide)
  have hlist : Parses (writeSeparated (ofString ", ") write) (Begins [ofString ";"])
      (readSeparated (ofString ", ") read) := (h.mono hcut).separated (by decide) (by decide)
  have hwhole := hlist.before fun rest => begins_append List.mem_cons_self rest
  rw [readListed, hwhole.readAll_eq_some_iff trivial, join_eq]

theorem mapM_eq_some {α β : Type} {f : α → Option β} {as : List α} {bs : List β}
    (hlength : as.length = bs.length)
    (h : ∀ i (ha : i < as.length) (hb : i < bs.length), f as[i] = some bs[i]) :
    as.mapM f = some bs := by
  induction as generalizing bs with
  | nil =>
      cases bs with
      | nil => rfl
      | cons b bs => cases hlength
  | cons a as ih =>
      cases bs with
      | nil => cases hlength
      | cons b bs =>
          have hfirst : f a = some b := h 0 (Nat.zero_lt_succ _) (Nat.zero_lt_succ _)
          have hrest := ih (Nat.succ.inj hlength) fun i ha hb =>
            h (i + 1) (Nat.succ_lt_succ ha) (Nat.succ_lt_succ hb)
          rw [List.mapM_cons, hfirst, hrest]
          rfl

/-- The name that is given to the place of a list's item. -/
def placed (initial : String) (hinitial : ∀ c ∈ ofString initial, IsWord c) (i : ℕ) : Reference :=
  ⟨ofString initial ++ digits i, words_numbered hinitial i⟩

/-- Names that begin differently are different. -/
theorem placed_ne {initial other : Str} (hne : initial ≠ []) (hother : initial.head? ≠ other.head?)
    (hother' : other ≠ []) (rest rest' : Str) : initial ++ rest ≠ other ++ rest' := by
  intro heq
  have hhead := congrArg List.head? heq
  rw [List.head?_append_of_ne_nil _ hne, List.head?_append_of_ne_nil _ hother'] at hhead
  exact hother hhead

/-- Different keys are assigned one after another. -/
theorem get?_foldl_set {κ α : Type} [LinearOrder κ] {pairs : List (κ × α)} (h : Dict.Keyed pairs)
    (d : List (κ × α)) :
    (∀ p ∈ pairs, Dict.get? (pairs.foldl (fun d p => Dict.set d p.1 p.2) d) p.1 = some p.2) ∧
    ∀ key ∉ Dict.keys pairs,
      Dict.get? (pairs.foldl (fun d p => Dict.set d p.1 p.2) d) key = Dict.get? d key := by
  induction pairs generalizing d with
  | nil => exact ⟨List.forall_mem_nil _, fun _ _ => rfl⟩
  | cons p pairs ih =>
      obtain ⟨hnew, hrest⟩ := List.nodup_cons.mp h
      obtain ⟨hlater, hkept⟩ := ih hrest (Dict.set d p.1 p.2)
      rw [List.foldl_cons]
      refine ⟨List.forall_mem_cons.mpr ⟨?_, hlater⟩, fun key hkey => ?_⟩
      · rw [hkept p.1 hnew, Dict.get?_set, if_pos rfl]
      · obtain ⟨hne, hnot⟩ := not_or.mp (List.mem_cons.not.mp hkey)
        rw [hkept key hnot, Dict.get?_set, if_neg hne]

theorem mem_zipIdx_getElem {α : Type} {xs : List α} {i : ℕ} (hi : i < xs.length) :
    (xs[i], i) ∈ xs.zipIdx :=
  List.mk_mem_zipIdx_iff_getElem?.mpr (List.getElem?_eq_getElem hi)

/-- Names by places are all different. -/
theorem placed_injective {initial : Str} {i j : ℕ} (h : initial ++ digits i = initial ++ digits j) :
    i = j := digits_injective (List.append_cancel_left h)

theorem nodup_places {α : Type} (xs : List α) : (xs.zipIdx.map Prod.snd).Nodup := by
  rw [List.zipIdx_map_snd]
  exact List.nodup_range'

/-- Initials that tell names by places apart, from each other and from the key's name. -/
def Initials (initials : List String) : Prop :=
  (∀ initial ∈ initials, ∀ c ∈ ofString initial, IsWord c) ∧
    ("k" :: initials).Pairwise fun v w => ofString v ≠ [] ∧ ofString w ≠ [] ∧
      (ofString v).head? ≠ (ofString w).head?

instance (initials : List String) : Decidable (Initials initials) :=
  haveI (initial : String) : Decidable (∀ c ∈ ofString initial, IsWord c) :=
    List.decidableBAll IsWord _
  inferInstanceAs (Decidable (_ ∧ _))

namespace CacheStatements

variable (s : CacheStatements) (statement key : Str)

theorem get?_numberedGiven {initial : String} (h : Initials [initial]) (values : List Value) :
    (∀ i (hi : i < values.length),
      Dict.get? (s.numberedGiven statement key initial values).parameters
        (ofString initial ++ digits i) = some values[i]) ∧
    given (s.numberedGiven statement key initial values).parameters "k" = some (.text key) := by
  have hkeyed : Dict.Keyed (values.zipIdx.map fun v => (ofString initial ++ digits v.2, v.1)) := by
    have hnames := (nodup_places values).map (f := fun i => ofString initial ++ digits i)
      fun _ _ => placed_injective
    rw [List.map_map] at hnames
    rwa [Dict.Keyed, Dict.keys, List.map_map]
  obtain ⟨hfound, hkept⟩ := get?_foldl_set hkeyed [(ofString "k", Value.text key)]
  rw [List.foldl_map] at hfound hkept
  refine ⟨fun i hi => hfound _ (List.mem_map_of_mem (mem_zipIdx_getElem hi)), ?_⟩
  refine (hkept (ofString "k") ?_).trans (by rfl)
  rw [Dict.keys, List.map_map, List.mem_map]
  rintro ⟨v, -, heq⟩
  obtain ⟨hk, hinitial, hhead⟩ := (List.pairwise_cons.mp h.2).1 initial List.mem_cons_self
  exact placed_ne hinitial hhead.symm hk (digits v.2) [] (heq.trans (List.append_nil _).symm)

/-- **A list of references is looked up as the values.** -/
theorem givenList_numbered {initial : String} (h : Initials [initial]) {values : List Value}
    (hne : values ≠ []) :
    givenList (s.numberedGiven statement key initial values).parameters
      (join ", " (values.mapIdx fun i _ => "$" ++ ofString initial ++ digits i)) = some values := by
  have hwords := h.1 initial List.mem_cons_self
  have hreferences : values.mapIdx (fun i _ => "$" ++ ofString initial ++ digits i) =
      ((List.range values.length).map (placed initial hwords)).map referenceText := by
    rw [mapIdx_const, List.map_map]
    exact List.map_congr_left fun i _ => List.append_assoc ..
  have hlength := List.length_pos_iff.mpr hne
  have hread := readListed_join parses_referenceText
  rw [hreferences, givenList]
  cases hplaces : (List.range values.length).map (placed initial hwords) with
  | nil => simp [hne] at hplaces
  | cons a as =>
      rw [hread, Option.bind_eq_bind, Option.bind_some, ← hplaces]
      refine mapM_eq_some (by simp) fun i hi hi' => ?_
      simpa [placed] using (s.get?_numberedGiven statement key h values).1 i hi'

theorem get?_pairedGiven {left right : String} (h : Initials [left, right])
    (pairs : List (Value × Value)) :
    (∀ i (hi : i < pairs.length),
      Dict.get? (s.pairedGiven statement key left right pairs).parameters
        (ofString left ++ digits i) = some pairs[i].1 ∧
      Dict.get? (s.pairedGiven statement key left right pairs).parameters
        (ofString right ++ digits i) = some pairs[i].2) ∧
    given (s.pairedGiven statement key left right pairs).parameters "k" = some (.text key) := by
  obtain ⟨hk, hpairwise⟩ := List.pairwise_cons.mp h.2
  obtain ⟨hleft, hright, hhead⟩ := (List.pairwise_cons.mp hpairwise).1 right List.mem_cons_self
  let assigned (p : (Value × Value) × ℕ) : List (Str × Value) :=
    [(ofString left ++ digits p.2, p.1.1), (ofString right ++ digits p.2, p.1.2)]
  have hfold : (s.pairedGiven statement key left right pairs).parameters =
      (pairs.zipIdx.flatMap assigned).foldl (fun d p => Dict.set d p.1 p.2)
        [(ofString "k", Value.text key)] := by
    rw [List.foldl_flatMap]
    rfl
  have hkeys : ∀ name, name ∈ Dict.keys (pairs.zipIdx.flatMap assigned) →
      ∃ initial ∈ [left, right], ∃ i, name = ofString initial ++ digits i := by
    intro name hname
    simp only [Dict.keys, List.map_flatMap, List.mem_flatMap, assigned, List.map_cons,
      List.map_nil, List.mem_cons, List.not_mem_nil, or_false] at hname
    obtain ⟨p, -, rfl | rfl⟩ := hname
    · exact ⟨left, by simp, _, rfl⟩
    · exact ⟨right, by simp, _, rfl⟩
  have hother : ∀ i j, ofString left ++ digits i ≠ ofString right ++ digits j := fun i j =>
    placed_ne hleft hhead hright (digits i) (digits j)
  have hkeyed : Dict.Keyed (pairs.zipIdx.flatMap assigned) := by
    rw [Dict.Keyed, Dict.keys, List.map_flatMap, List.nodup_flatMap]
    refine ⟨fun p _ => List.nodup_cons.mpr ⟨?_, List.nodup_singleton _⟩, ?_⟩
    · exact fun hmem => hother _ _ (List.mem_singleton.mp hmem)
    · refine (List.pairwise_map.mp (nodup_places pairs)).imp fun {p q} hne => ?_
      simp only [Function.onFun, assigned, List.map_cons, List.map_nil]
      rintro name (_ | ⟨_, _ | ⟨_, ⟨⟩⟩⟩) hq
      · rcases List.mem_cons.mp hq with heq | hq
        · exact hne (placed_injective heq)
        · exact hother _ _ (List.mem_singleton.mp hq)
      · rcases List.mem_cons.mp hq with heq | hq
        · exact hother _ _ heq.symm
        · exact hne (placed_injective (List.mem_singleton.mp hq))
  obtain ⟨hfound, hkept⟩ := get?_foldl_set hkeyed [(ofString "k", Value.text key)]
  rw [← hfold] at hfound hkept
  refine ⟨fun i hi => ?_, ?_⟩
  · have hmem : ∀ p ∈ assigned (pairs[i], i), p ∈ pairs.zipIdx.flatMap assigned := fun p hp =>
      List.mem_flatMap.mpr ⟨_, mem_zipIdx_getElem hi, hp⟩
    exact ⟨hfound _ (hmem _ List.mem_cons_self),
      hfound _ (hmem _ (List.mem_cons_of_mem _ List.mem_cons_self))⟩
  · refine (hkept (ofString "k") fun hname => ?_).trans (by rfl)
    obtain ⟨initial, hinitial, i, heq⟩ := hkeys _ hname
    obtain ⟨hk, hne, hhead⟩ := hk initial hinitial
    exact placed_ne hk hhead hne [] (digits i) ((List.append_nil _).trans heq)

/-- **A list of pairs of references is looked up as the pairs of values.** -/
theorem givenPairs_paired {left right : String} (h : Initials [left, right])
    {pairs : List (Value × Value)} (hne : pairs ≠ []) :
    givenPairs (s.pairedGiven statement key left right pairs).parameters
      (join ", " (pairs.mapIdx fun i _ =>
        "$" ++ ofString left ++ digits i ++ " = $" ++ ofString right ++ digits i)) =
      some pairs := by
  have hleft := h.1 left List.mem_cons_self
  have hright := h.1 right (List.mem_cons_of_mem _ List.mem_cons_self)
  let both (i : ℕ) : Reference × Reference := (placed left hleft i, placed right hright i)
  have hreferences : pairs.mapIdx (fun i _ =>
        "$" ++ ofString left ++ digits i ++ " = $" ++ ofString right ++ digits i) =
      ((List.range pairs.length).map both).map pairText := by
    rw [mapIdx_const, List.map_map]
    refine List.map_congr_left fun i _ => ?_
    simp only [Function.comp_apply, both, pairText, referenceText, placed, List.append_assoc]
    rfl
  rw [hreferences, givenPairs]
  cases hplaces : (List.range pairs.length).map both with
  | nil => simp [hne] at hplaces
  | cons a as =>
      rw [readListed_join parses_pairText, Option.bind_eq_bind, Option.bind_some, ← hplaces]
      refine mapM_eq_some (by simp) fun i hi hi' => ?_
      obtain ⟨hfirst, hsecond⟩ := (s.get?_pairedGiven statement key h pairs).1 i hi'
      simp [both, placed, hfirst, hsecond]

/-! ### Statements with a list -/

/-- A form whose last hole takes a list. -/
theorem read_listed (form : CacheForm) (hlast : form.last = some .list) {parts : List Str}
    (hne : parts ≠ []) (hparts : ∀ part ∈ parts, part ≠ [] ∧ Within (· ≠ codePoint 0x3B) part)
    {statement : Str} {ps : List (Str × Value)} {call : CacheCall}
    (hstatement : statement =
      form.before ++ (s.space.text ++ (form.behind ++ (HOLE ++ ofString ";"))))
    (hbrace : codePoint 0x7B ∉ form.before ∧ codePoint 0x7B ∉ form.behind)
    (hcall : form.call ps [join ", " parts] = some call) :
    CacheCall.read (s.tenancy ++ format statement (join ", " parts)) ps = some (s, call) := by
  have hspace : codePoint 0x7B ∉ s.space.text := fun hmem =>
    absurd (s.space.words _ hmem) (by decide)
  have hfront : codePoint 0x7B ∉ form.before ++ s.space.text ++ form.behind := by
    simp only [List.mem_append, not_or]
    exact ⟨⟨hbrace.1, hspace⟩, hbrace.2⟩
  have hplain : Within (· ≠ codePoint 0x3B) (join ", " parts) :=
    Within.join (forall_mem_of_all (by decide)) fun part hpart => (hparts part hpart).2
  have hjoin : join ", " parts ≠ [] := by
    cases parts with
    | nil => exact absurd rfl hne
    | cons part parts =>
        have hpart := (hparts part List.mem_cons_self).1
        cases parts with
        | nil => exact hpart
        | cons other parts =>
            rw [join_cons_cons, List.append_assoc]
            exact List.append_ne_nil_of_left_ne_nil hpart _
  refine s.read_form_last form .list hlast hjoin (fun c hc => decide_eq_true (hplain c hc)) ?_ hcall
  have hassoc : statement =
      form.before ++ s.space.text ++ form.behind ++ (HOLE ++ ofString ";") := by
    simp only [hstatement, List.append_assoc]
  rw [hassoc, format_hole hfront (by decide)]
  simp only [List.append_assoc]

/-- No reference ends a statement. -/
theorem within_reference {initial : String} (hinitial : ∀ c ∈ ofString initial, IsWord c) (i : ℕ) :
    Within (· ≠ codePoint 0x3B) ("$" ++ ofString initial ++ digits i) := by
  rw [List.append_assoc]
  refine Within.append (forall_mem_of_all (by decide)) fun c hc => ?_
  rintro rfl
  exact absurd (words_numbered hinitial i _ hc) (by decide)

variable {statement key}

theorem read_numbered (form : CacheForm) (hlast : form.last = some .list) {initial : String}
    (h : Initials [initial]) {values : List Value} (hne : values ≠ []) {call : CacheCall}
    (hstatement : statement =
      form.before ++ (s.space.text ++ (form.behind ++ (HOLE ++ ofString ";"))))
    (hbrace : codePoint 0x7B ∉ form.before ∧ codePoint 0x7B ∉ form.behind)
    (hcall : ∀ ps list, givenText ps "k" = some key → givenList ps list = some values →
      form.call ps [list] = some call) :
    CacheCall.read (s.numberedGiven statement key initial values).script
      (s.numberedGiven statement key initial values).parameters = some (s, call) := by
  refine s.read_listed form hlast (by simp [hne]) (fun part hpart => ?_) hstatement hbrace
    (hcall _ _ ?_ (s.givenList_numbered statement key h hne))
  · rw [mapIdx_const] at hpart
    obtain ⟨i, -, rfl⟩ := List.mem_map.mp hpart
    exact ⟨List.cons_ne_nil _ _, within_reference (h.1 _ List.mem_cons_self) i⟩
  · rw [givenText, (s.get?_numberedGiven statement key h values).2]

theorem read_paired (form : CacheForm) (hlast : form.last = some .list) {left right : String}
    (h : Initials [left, right]) {pairs : List (Value × Value)} (hne : pairs ≠ [])
    {call : CacheCall}
    (hstatement : statement =
      form.before ++ (s.space.text ++ (form.behind ++ (HOLE ++ ofString ";"))))
    (hbrace : codePoint 0x7B ∉ form.before ∧ codePoint 0x7B ∉ form.behind)
    (hcall : ∀ ps list, givenText ps "k" = some key → givenPairs ps list = some pairs →
      form.call ps [list] = some call) :
    CacheCall.read (s.pairedGiven statement key left right pairs).script
      (s.pairedGiven statement key left right pairs).parameters = some (s, call) := by
  refine s.read_listed form hlast (by simp [hne]) (fun part hpart => ?_) hstatement hbrace
    (hcall _ _ ?_ (s.givenPairs_paired statement key h hne))
  · rw [mapIdx_const] at hpart
    obtain ⟨i, -, rfl⟩ := List.mem_map.mp hpart
    have hleft := within_reference (h.1 left List.mem_cons_self) i
    have hright := within_reference (h.1 right (List.mem_cons_of_mem _ List.mem_cons_self)) i
    have hequals : Within (· ≠ codePoint 0x3B) (ofString " = ") := forall_mem_of_all (by decide)
    have hsplit : "$" ++ ofString left ++ digits i ++ " = $" ++ ofString right ++ digits i =
        ("$" ++ ofString left ++ digits i) ++ (ofString " = " ++
          ("$" ++ ofString right ++ digits i)) := by
      simp only [List.append_assoc]
      rfl
    rw [hsplit]
    exact ⟨List.cons_ne_nil _ _, hleft.append (hequals.append hright)⟩
  · rw [givenText, (s.get?_pairedGiven statement key h pairs).2]

end CacheStatements

/-! ### Calls -/

/-- A call as the methods of a cache make it. -/
def CacheCall.Plain : CacheCall → Prop
  | .set _ _ condition expected _ =>
      ∃ stored : Stored, condition = stored.text ∧ expected.isSome = decide (stored = .ifEqual)
  | .keys before _ limit => before ≠ some [] ∧ 0 ≤ limit ∧ limit ≤ U64_MAX
  | .listPush _ values _ => values ≠ []
  | .hashSet _ fields => fields ≠ []
  | .hashRemove _ fields => fields ≠ []
  | .members verb _ items => (verb = ofString "ADD" ∨ verb = ofString "REMOVE") ∧ items ≠ []
  | .scoresAdd _ scores => scores ≠ []
  | .scoresRemove _ items => items ≠ []
  | .scoresOf function _ _ => function = ofString "rank" ∨ function = ofString "score"
  | _ => True

namespace CacheStatements

variable (s : CacheStatements)

theorem read_set (key : Str) (value : Value) (stored : Stored) {expected : Option Value}
    (hexpected : expected.isSome = decide (stored = .ifEqual)) (ttl : Option Duration) :
    CacheCall.read (s.set key value stored.text expected ttl).script
      (s.set key value stored.text expected ttl).parameters =
        some (s, .set key value stored.text expected ttl) := by
  refine s.read_form (.set stored ttl.isSome) rfl ?_ ?_
  · cases expected <;> cases ttl <;>
      simp only [set, keyed, Rendered.given, CacheForm.before, CacheForm.behind, List.append_assoc,
        Option.elim_none, Option.elim_some] <;> rfl
  · cases stored with
    | ifEqual =>
        cases expected with
        | none => cases hexpected
        | some expected => cases ttl <;> rfl
    | always | ifAbsent | ifPresent =>
        cases expected with
        | none => cases ttl <;> rfl
        | some expected => cases hexpected

theorem read_keys (before after : Option Str) (hbefore : before ≠ some []) {limit : ℤ}
    (hlimit : 0 ≤ limit ∧ limit ≤ U64_MAX) :
    CacheCall.read (s.keys before after limit).script (s.keys before after limit).parameters =
      some (s, .keys before after limit) := by
  let count : Count := ⟨limit, hlimit⟩
  have hcount : countOf (str limit) = some count := (countOf_eq_some_iff _ count).mpr rfl
  have hne : str limit ≠ [] := by
    have htext := count.text_eq
    rw [Count.text] at htext
    rw [htext]
    exact digits_ne_nil _
  have hfilter : before.filter (· ≠ []) = before := by
    cases before with
    | none => rfl
    | some before =>
        have hne : before ≠ [] := fun hnil => hbefore (congrArg some hnil)
        simp [Option.filter, hne]
  refine s.read_form_last (.keys before.isSome after.isSome) .word rfl hne
    (fun c hc => decide_eq_true (count.words c hc)) ?_ ?_
  · rw [keys, hfilter]
    cases before <;> cases after <;>
      simp only [Rendered.given, CacheForm.before, CacheForm.behind, List.append_assoc,
        Option.elim_none, Option.elim_some] <;> rfl
  · rw [keys, hfilter]
    cases before <;> cases after <;> simp only [CacheForm.call, hcount] <;> rfl

theorem read_listPop (key : Str) (front : Bool) (count : Option ℤ) :
    CacheCall.read (s.listPop key front count).script (s.listPop key front count).parameters =
      some (s, .listPop key front count) := by
  refine s.read_form (.listPop front count.isSome) rfl ?_ ?_
  · cases front <;> cases count <;>
      simp only [listPop, keyed, Rendered.given, CacheForm.before, CacheForm.behind,
        List.append_assoc] <;> rfl
  · cases count <;> rfl

theorem read_listRemove (key : Str) (value : Value) (count : Option ℤ) :
    CacheCall.read (s.listRemove key value count).script
      (s.listRemove key value count).parameters = some (s, .listRemove key value count) := by
  refine s.read_form (.listRemove count.isSome) rfl ?_ ?_
  · cases count <;>
      simp only [listRemove, keyed, Rendered.given, CacheForm.before, CacheForm.behind,
        List.append_assoc, Option.elim_none, Option.elim_some] <;> rfl
  · cases count <;> rfl

theorem read_scoresBetween (key : Str) (low high : Option Double) :
    CacheCall.read (s.scoresBetween key low high).script
      (s.scoresBetween key low high).parameters = some (s, .scoresBetween key low high) := by
  refine s.read_form (.scoresBetween low.isSome high.isSome) rfl ?_ ?_
  · cases low <;> cases high <;>
      simp only [scoresBetween, keyed, Rendered.given, CacheForm.before, CacheForm.behind,
        List.append_assoc, Option.elim_none, Option.elim_some] <;> rfl
  · cases low <;> cases high <;> rfl

end CacheStatements

theorem mapM_textOf (texts : List Str) : (texts.map Value.text).mapM textOf = some texts :=
  mapM_eq_some (by simp) (by simp [textOf])

/-- **A plain call is read back**, and every value is found where it was put. -/
theorem CacheCall.read_render (s : CacheStatements) {call : CacheCall} (hplain : call.Plain) :
    CacheCall.read (call.render s).script (call.render s).parameters = some (s, call) := by
  cases call with
  | get key => exact s.read_form .get rfl rfl rfl
  | set key value condition expected lasting =>
      obtain ⟨stored, rfl, hexpected⟩ := hplain
      exact s.read_set key value stored hexpected lasting
  | delete key => exact s.read_form .delete rfl rfl rfl
  | incr key n => exact s.read_form .incr rfl rfl rfl
  | ttl key => exact s.read_form .ttl rfl rfl rfl
  | expire key lasting => exact s.read_form .expire rfl rfl rfl
  | persist key => exact s.read_form .persist rfl rfl rfl
  | keys before after limit => exact s.read_keys before after hplain.1 hplain.2
  | lock key holder lasting => exact s.read_form .lock rfl rfl rfl
  | extend key holder lasting => exact s.read_form .extend rfl rfl rfl
  | release key holder => exact s.read_form .release rfl rfl rfl
  | listPush key values front =>
      refine s.read_numbered (.listPush front) rfl (by decide) hplain ?_
        (by cases front <;> decide) fun ps list hkey hlist => ?_
      · cases front <;> simp only [CacheForm.before, CacheForm.behind, List.append_assoc] <;> rfl
      · simp only [CacheForm.call, hkey, hlist]
        rfl
  | listPop key front count => exact s.read_listPop key front count
  | listRange key start count => exact s.read_form .listRange rfl rfl rfl
  | listAt key index => exact s.read_form .listAt rfl rfl rfl
  | listLen key => exact s.read_form .listLen rfl rfl rfl
  | listRemove key value count => exact s.read_listRemove key value count
  | listTrim key start stop => exact s.read_form .listTrim rfl rfl rfl
  | hashSet key fields =>
      have hfields : (fields.map fun field => (Value.text field.1, field.2)).mapM
          (fun p => do return (← textOf p.1, p.2)) = some fields :=
        mapM_eq_some (by simp) (by simp [textOf])
      refine s.read_paired .hashSet rfl (by decide) (List.map_eq_nil_iff.not.mpr hplain) rfl
        (by decide) fun ps list hkey hlist => ?_
      simp only [CacheForm.call, hkey, hlist, Option.bind_eq_bind, Option.bind_some]
      simp only [Option.bind_eq_bind] at hfields
      rw [hfields]
      rfl
  | hashGet key field => exact s.read_form .hashGet rfl rfl rfl
  | hashRemove key fields =>
      refine s.read_numbered .hashRemove rfl (by decide) (List.map_eq_nil_iff.not.mpr hplain) rfl
        (by decide) fun ps list hkey hlist => ?_
      simp only [CacheForm.call, hkey, hlist, Option.bind_eq_bind, Option.bind_some,
        mapM_textOf]
      rfl
  | hashIncr key field n => exact s.read_form .hashIncr rfl rfl rfl
  | hashLen key => exact s.read_form .hashLen rfl rfl rfl
  | members verb key items =>
      obtain ⟨rfl | rfl, hne⟩ := hplain
      · refine s.read_numbered (.members true) rfl (by decide) hne rfl (by decide)
          fun ps list hkey hlist => ?_
        simp only [CacheForm.call, hkey, hlist]
        rfl
      · refine s.read_numbered (.members false) rfl (by decide) hne rfl (by decide)
          fun ps list hkey hlist => ?_
        simp only [CacheForm.call, hkey, hlist]
        rfl
  | membersHas key member => exact s.read_form .membersHas rfl rfl rfl
  | membersLen key => exact s.read_form .membersLen rfl rfl rfl
  | scoresAdd key scores =>
      have hscores : (scores.map fun score => (Value.text score.1, Value.float score.2)).mapM
          (fun p => do return (← textOf p.1, ← floatOf p.2)) = some scores :=
        mapM_eq_some (by simp) (by simp [textOf, floatOf])
      refine s.read_paired .scoresAdd rfl (by decide) (List.map_eq_nil_iff.not.mpr hplain) rfl
        (by decide) fun ps list hkey hlist => ?_
      simp only [CacheForm.call, hkey, hlist, Option.bind_eq_bind, Option.bind_some]
      simp only [Option.bind_eq_bind] at hscores
      rw [hscores]
      rfl
  | scoresIncr key member x => exact s.read_form .scoresIncr rfl rfl rfl
  | scoresRemove key items =>
      refine s.read_numbered .scoresRemove rfl (by decide) (List.map_eq_nil_iff.not.mpr hplain) rfl
        (by decide) fun ps list hkey hlist => ?_
      simp only [CacheForm.call, hkey, hlist, Option.bind_eq_bind, Option.bind_some,
        mapM_textOf]
      rfl
  | scoresOf function key member =>
      rcases hplain with rfl | rfl
      · exact s.read_form (.scoresOf true) rfl rfl rfl
      · exact s.read_form (.scoresOf false) rfl rfl rfl
  | scoresRange key start stop => exact s.read_form .scoresRange rfl rfl rfl
  | scoresBetween key low high => exact s.read_scoresBetween key low high

end TessariDB
