import TessariDB.HttpSession
import TessariDB.Sequences

/-!
# Faults of an Answered Document

The readers of the HTTP surface (`script.py`, `health.py`, `_files.py`) index into whatever JSON a
node, or something in front of it, answered. Each reader has the list of a document's *faults*, in
the order in which it comes upon them: what it refuses with `Malformed`, and what escapes it as a
`KeyError`, a `TypeError` or the like. A reader ends with the first fault of the document.

What `read_value` makes of a value is taken as it is.

## Main results

* `readResults_endsWith`, `listing_endsWith`, `append_endsWith`, `readHealth_endsWith`,
  `sessionToken_endsWith`: the first fault of each document.
-/

namespace TessariDB

open ByteCodec Utf8 Text Sequences

/-- What a document is at fault with. -/
inductive Fault where
  /-- A `Malformed`. -/
  | refused
  /-- Any other exception. -/
  | escapes
  deriving DecidableEq, Repr

namespace Fault

/-- The fault an error is raised over. -/
def of : JsonRaised → Fault
  | .malformed _ => .refused
  | _ => .escapes

def Raises (fault : Fault) (e : JsonRaised) : Prop := fault = of e

end Fault

namespace DocumentFaults

open JsonValues Script Http Fault

variable (python : Interpreter)

/-- The fault in work that is not looked into any further. -/
def faultsOf {α : Type} : Except JsonRaised α → List Fault
  | .ok _ => []
  | .error e => [of e]

theorem endsWith_faultsOf {α : Type} (x : Except JsonRaised α) : EndsWith Raises x (faultsOf x) := by
  cases x with
  | ok a => exact .ok a
  | error e => exact .error rfl

/-! ### Looking into a document -/

def isObject : Json → Bool
  | .object _ => true
  | _ => false

/-- The member under a key, if there is one. -/
def member (node : Json) (key : String) : Option Json :=
  match node with
  | .object members => Dict.get? members (ofString key)
  | _ => none

/-- A member that has to be there. -/
def needed (node : Json) (key : String) : List Fault := lacking (member node key).isSome .escapes

/-- Parts that are looked at one after another. -/
def each (faults : Json → List Fault) (node : Json) : List Fault :=
  match iterate node with
  | .ok parts => parts.flatMap faults
  | .error _ => [.escapes]

theorem subscript_endsWith (node : Json) (key : String) :
    EndsWith Raises (subscript node key) (needed node key) := by
  cases node with
  | object members =>
      rw [subscript, item, needed, member]
      cases Dict.get? members (ofString key) with
      | none => exact .error rfl
      | some held => exact .ok held
  | _ => exact .error rfl

/-- What stands under a key that was there. -/
theorem subscript_eq_ok {node : Json} {key : String} {held : Json}
    (h : subscript node key = .ok held) : member node key = some held := by
  cases node with
  | object members =>
      rw [subscript, item] at h
      rw [member]
      cases hget : Dict.get? members (ofString key) with
      | none =>
          rw [hget] at h
          cases h
      | some found =>
          rw [hget] at h
          exact congrArg some (Except.ok.inj h)
  | _ => cases h

theorem get_endsWith (node : Json) (key : String) :
    EndsWith Raises (Script.get node key) (lacking (isObject node) .escapes) := by
  cases node with
  | object members => exact .ok _
  | _ => exact .error rfl

theorem each_endsWith {α : Type} {read : Json → Except JsonRaised α} {faults : Json → List Fault}
    (h : ∀ part, EndsWith Raises (read part) (faults part)) (node : Json) :
    EndsWith Raises (do (← iterate node).mapM read) (each faults node) := by
  rw [each]
  cases hparts : iterate node with
  | ok parts => exact .mapM_flatMap fun part _ => h part
  | error e =>
      -- a node that is no container is the one error of a loop
      have he : e = .typeError := by
        cases node <;> simp_all [iterate]
      exact .error (by rw [he]; rfl)

/-- A loop, and what comes after it. -/
theorem each_bind {α β : Type} {read : Json → Except JsonRaised α} {faults : Json → List Fault}
    (h : ∀ part, EndsWith Raises (read part) (faults part)) (node : Json)
    {f : List α → Except JsonRaised β} {ds : List Fault} (hf : ∀ as, EndsWith Raises (f as) ds) :
    EndsWith Raises (do let parts ← iterate node; let as ← parts.mapM read; f as)
      (each faults node ++ ds) := by
  have hafter := (each_endsWith h node).bind (f := f) fun as _ => hf as
  rwa [bind_assoc] at hafter

/-! ### The outcomes of a script -/

/-- The faults of an `int(node)`. -/
def intFaults : Json → List Fault
  | .bool _ => []
  | .int _ => []
  | .float value => lacking (Doubles.isFinite value) .escapes
  | .string value => lacking (python.int value).isSome .escapes
  | _ => [.escapes]

theorem toInt_endsWith (node : Json) : EndsWith Raises (toInt python node) (intFaults python node) := by
  cases node with
  | bool value => exact .ok _
  | int value => exact .ok _
  | float value =>
      rw [toInt, intFaults]
      by_cases hfinite : Doubles.isFinite value = true
      · rw [if_pos hfinite, lacking_of hfinite]
        exact .ok _
      · rw [if_neg hfinite, lacking_of_not hfinite]
        split
        · exact .error rfl
        · exact .error rfl
  | string value =>
      rw [toInt, intFaults]
      cases python.int value with
      | none => exact .error rfl
      | some n => exact .ok n
  | _ => exact .error rfl

/-- The faults of an access path. -/
def pathFaults : Json → List Fault
  | .string word => lacking (PATHS.find? fun known => known.word = word).isSome .refused
  | .array _ => [.escapes]
  | .object _ => [.escapes]
  | _ => [.refused]

theorem readPath_endsWith (path : Json) :
    EndsWith Raises (readPath python path) (pathFaults path) := by
  cases path with
  | string word =>
      rw [readPath, pathFaults]
      cases PATHS.find? fun known => known.word = word with
      | none => exact .error rfl
      | some known => exact .ok known
  | _ => exact .error rfl

variable (reading : Reading)

/-- The faults of a row, whose value is read at the kind that was declared. -/
def rowFaults (row : Json) : List Fault :=
  match reading.value with
  | none => [.refused]
  | some kind =>
      needed row "id" ++ (needed row "value" ++
        faultsOf (JsonValues.readValue python kind ((member row "value").getD .null)))

theorem readRow_endsWith (row : Json) :
    EndsWith Raises (readRow python reading row) (rowFaults python reading row) := by
  rw [readRow, rowFaults]
  cases reading.value with
  | none => exact .error rfl
  | some kind =>
      refine (subscript_endsWith row "id").bind fun identity _ =>
        (subscript_endsWith row "value").bind fun value hvalue => ?_
      rw [subscript_eq_ok hvalue]
      exact (endsWith_faultsOf _).map _

def noteFaults (node : Json) : List Fault := needed node "kind" ++ needed node "message"

theorem readNote_endsWith (node : Json) : EndsWith Raises (readNote node) (noteFaults node) :=
  (subscript_endsWith node "kind").bind fun _ _ => (subscript_endsWith node "message").map _

def correctionFaults (node : Json) : List Fault := needed node "typed" ++ needed node "instead"

theorem readCorrection_endsWith (node : Json) :
    EndsWith Raises (readCorrection node) (correctionFaults node) :=
  (subscript_endsWith node "typed").bind fun _ _ => (subscript_endsWith node "instead").map _

/-- A plan is an object, or it is nothing to the reader. -/
theorem readPlan_endsWith (body : Json) :
    EndsWith Raises (readPlan body) (lacking (isObject body) .escapes) := by
  cases body with
  | object members =>
      have hexactness : ∃ exactness, planExactness (.object members) = .ok exactness := by
        rw [planExactness, contains, subscript, item]
        cases Dict.get? members (ofString "exact") with
        | none => exact ⟨_, rfl⟩
        | some exact =>
            by_cases htrue : exact.truthy = true
            · exact ⟨.exact, if_pos htrue⟩
            · exact ⟨_, if_neg htrue⟩
      obtain ⟨exactness, hexactness⟩ := hexactness
      rw [readPlan, hexactness]
      exact .ok _
  | array items =>
      rw [readPlan, planExactness, contains]
      cases items.any (·.isWord "exact")
      · exact .error rfl
      · exact .error rfl
  | string value =>
      rw [readPlan, planExactness, contains]
      by_cases hword : ofString "exact" <:+: value
      · simp only [hword, decide_true]
        exact .error rfl
      · simp only [hword, decide_false]
        exact .error rfl
  | _ => exact .error rfl

/-- The faults of what is nearest to a statement. -/
def suggestionFaults (node : Json) : List Fault :=
  match member node "suggestion" with
  | none => []
  | some held =>
      lacking (isObject held) .escapes ++
        let corrections := (member held "corrections").getD (.array [])
        if corrections.truthy then each correctionFaults corrections else []

theorem readSuggestion_endsWith (node : List (Str × Json)) :
    EndsWith Raises (readSuggestion node) (suggestionFaults (.object node)) := by
  rw [readSuggestion, suggestionFaults, member]
  cases Dict.get? node (ofString "suggestion") with
  | none => exact .ok _
  | some held =>
      refine (get_endsWith held "corrections").bind fun found hfound => ?_
      have hheld : found = member held "corrections" := by
        cases held with
        | object members => exact (Except.ok.inj hfound).symm
        | _ => cases hfound
      rw [← hheld]
      dsimp only
      split
      · rw [← List.append_nil (each _ _)]
        exact each_bind readCorrection_endsWith _ fun items => .ok _
      · exact .ok _

/-- The faults of a records outcome. -/
def recordsFaults (node : Json) : List Fault :=
  pathFaults ((member node "path").getD .null) ++
    (each (rowFaults python reading) ((member node "records").getD (.array [])) ++
      (each noteFaults ((member node "notes").getD (.array [])) ++
        (lacking (isObject ((member node "plan").getD (.object []))) .escapes ++
          suggestionFaults node)))

theorem readRecords_endsWith (node : List (Str × Json)) :
    EndsWith Raises (readRecords python reading node) (recordsFaults python reading (.object node)) := by
  exact (readPath_endsWith python _).bind fun path _ =>
    each_bind (readRow_endsWith python reading) _ fun rows =>
      each_bind readNote_endsWith _ fun notes =>
        (readPlan_endsWith _).bind fun plan _ => (readSuggestion_endsWith node).map _

/-- The faults of an outcome. -/
def outcomeFaults (node : Json) : List Fault :=
  lacking (isObject node) .escapes ++
    let kind := (member node "kind").getD .null
    if kind.isWord "done" then []
    else if kind.isWord "value" then
      match member node "value", reading.value with
      | none, _ => []
      | some _, none => [.refused]
      | some value, some kind => faultsOf (JsonValues.readValue python kind value)
    else if kind.isWord "keys" then
      lacking (asList ((member node "keys").getD .null)).isSome .refused
    else if kind.isWord "removed" then
      needed node "count" ++ intFaults python ((member node "count").getD .null)
    else if kind.isWord "unknown" then []
    else if kind.isWord "records" then recordsFaults python reading node
    else [.refused]

theorem readOutcome_endsWith (node : Json) :
    EndsWith Raises (readOutcome python reading node) (outcomeFaults python reading node) := by
  cases node with
  | object members =>
      change EndsWith Raises _ ([] ++ _)
      rw [readOutcome, List.nil_append, member]
      dsimp only
      by_cases hdone : ((Dict.get? members (ofString "kind")).getD .null).isWord "done" = true
      · rw [if_pos hdone, if_pos hdone]
        exact .ok _
      rw [if_neg hdone, if_neg hdone]
      by_cases hvalue : ((Dict.get? members (ofString "kind")).getD .null).isWord "value" = true
      · rw [if_pos hvalue, if_pos hvalue, member]
        cases Dict.get? members (ofString "value") with
        | none => exact .ok _
        | some value =>
            cases reading.value with
            | none => exact .error rfl
            | some kind => exact (endsWith_faultsOf _).map _
      rw [if_neg hvalue, if_neg hvalue]
      by_cases hkeys : ((Dict.get? members (ofString "kind")).getD .null).isWord "keys" = true
      · rw [if_pos hkeys, if_pos hkeys, member]
        cases (Dict.get? members (ofString "keys")).getD .null with
        | array keys => exact .ok _
        | _ => exact .error rfl
      rw [if_neg hkeys, if_neg hkeys]
      by_cases hremoved :
          ((Dict.get? members (ofString "kind")).getD .null).isWord "removed" = true
      · rw [if_pos hremoved, if_pos hremoved]
        refine (subscript_endsWith (.object members) "count").bind fun count hcount => ?_
        rw [subscript_eq_ok hcount]
        exact (toInt_endsWith python count).map _
      rw [if_neg hremoved, if_neg hremoved]
      by_cases hunknown :
          ((Dict.get? members (ofString "kind")).getD .null).isWord "unknown" = true
      · rw [if_pos hunknown, if_pos hunknown]
        exact .ok _
      rw [if_neg hunknown, if_neg hunknown]
      by_cases hrecords :
          ((Dict.get? members (ofString "kind")).getD .null).isWord "records" = true
      · rw [if_pos hrecords, if_pos hrecords]
        exact (readRecords_endsWith python reading members).map _
      · rw [if_neg hrecords, if_neg hrecords]
        exact .error rfl
  | _ => exact .error rfl

/-- The faults of a script's answer. -/
def resultsFaults (body : Json) : List Fault :=
  lacking (isObject body) .escapes ++
    match (member body "results").getD .null with
    | .array results => results.flatMap (outcomeFaults python reading)
    | _ => [.refused]

theorem readResults_endsWith (body : Json) :
    EndsWith Raises (readResults python reading body) (resultsFaults python reading body) := by
  cases body with
  | object members =>
      change EndsWith Raises _ ([] ++ _)
      rw [readResults, List.nil_append, member]
      cases (Dict.get? members (ofString "results")).getD .null with
      | array results => exact .mapM_flatMap fun node _ => readOutcome_endsWith python reading node
      | _ => exact .error rfl
  | _ => exact .error rfl

/-! ### The other documents -/

theorem contains_eq_error {word : String} {node : Json} {e : JsonRaised}
    (h : contains word node = .error e) : e = .typeError := by
  cases node with
  | object members => cases h
  | array items => cases h
  | string value => cases h
  | _ => exact (Except.error.inj h).symm

/-- The faults of an element of a listing. -/
def entryFaults (node : Json) : List Fault :=
  match contains "kind" node, contains "records" node with
  | .ok kind, .ok records =>
      if kind && records then [.refused]
      else lacking (isObject node) .escapes ++
        lacking (asStr ((member node "path").getD .null)).isSome .refused
  | _, _ => [.escapes]

theorem readEntry_endsWith (node : Json) :
    EndsWith Raises (readEntry python node) (entryFaults node) := by
  rw [readEntry, entryFaults]
  cases hkind : contains "kind" node with
  | error e =>
      obtain rfl := contains_eq_error hkind
      exact .error rfl
  | ok kind =>
      cases hrecords : contains "records" node with
      | error e =>
          obtain rfl := contains_eq_error hrecords
          exact .error rfl
      | ok records =>
          change EndsWith Raises (if (kind && records) = true then _ else _)
            (if (kind && records) = true then _ else _)
          split
          · exact .error rfl
          · cases node with
            | object members =>
                rw [Script.get, member]
                cases Dict.get? members (ofString "path") with
                | none => exact .error rfl
                | some held =>
                    cases held with
                    | string path => exact .ok _
                    | _ => exact .error rfl
            | _ => exact .error rfl

/-- The faults of a listing. -/
def listingFaults (body : Json) : List Fault :=
  lacking (isObject body) .escapes ++ each entryFaults ((member body "files").getD (.array []))

theorem listing_endsWith (body : Json) :
    EndsWith Raises (do
      let files := (← Script.get body "files").getD (.array [])
      return some (← (← iterate files).mapM (readEntry python))) (listingFaults body) := by
  cases body with
  | object members =>
      rw [listingFaults, ← List.append_nil (each _ _)]
      exact each_bind (readEntry_endsWith python) _ fun entries => .ok _
  | _ => exact .error rfl

/-- An `int`, or a `bool`, which is one. -/
def isInt : Json → Bool
  | .int _ => true
  | .bool _ => true
  | _ => false

/-- The faults of the answer to a batch. -/
def appendFaults (body : Json) : List Fault :=
  lacking (isObject body) .escapes ++ lacking (isInt ((member body "appended").getD .null)) .refused

theorem append_endsWith (body : Json) :
    EndsWith Raises (do
      match ← Script.get body "appended" with
      | some (.int landed) => return landed
      | some (.bool landed) => return if landed then 1 else 0
      | _ => .error (.malformed "the node's answer does not say how many landed"))
      (appendFaults body) := by
  cases body with
  | object members =>
      change EndsWith Raises (match Dict.get? members (ofString "appended") with
        | some (.int landed) => _
        | some (.bool landed) => _
        | _ => _) ([] ++ lacking (isInt ((Dict.get? members (ofString "appended")).getD .null)) _)
      rw [List.nil_append]
      cases Dict.get? members (ofString "appended") with
      | none => exact .error rfl
      | some held =>
          cases held with
          | int landed => exact .ok _
          | bool landed => exact .ok _
          | _ => exact .error rfl
  | _ => exact .error rfl

/-- The faults of a node's health. -/
def healthFaults (body : Json) : List Fault :=
  lacking (isObject body) .escapes ++
    let status := (member body "status").getD .null
    let committed := needed body "committed" ++ intFaults python ((member body "committed").getD .null)
    if status.isWord "ok" then committed
    else if status.isWord "unwell" then
      committed ++ intFaults python ((member body "background_errors").getD (.int 0))
    else if status.isWord "leaving" then []
    else [.refused]

/-- The commit position, and what comes after it. -/
theorem committed_bind {β : Type} (body : Json) {f : ℤ → Except JsonRaised β} {ds : List Fault}
    (hf : ∀ n, EndsWith Raises (f n) ds) :
    EndsWith Raises (do
      let committed ← subscript body "committed"
      let n ← toInt python committed
      f n)
      (needed body "committed" ++ intFaults python ((member body "committed").getD .null) ++ ds) := by
  rw [List.append_assoc]
  refine (subscript_endsWith body "committed").bind fun committed hcommitted => ?_
  rw [subscript_eq_ok hcommitted]
  exact (toInt_endsWith python committed).bind fun n _ => hf n

theorem readHealth_endsWith (body : Json) :
    EndsWith Raises (readHealth python body) (healthFaults python body) := by
  cases body with
  | object members =>
      rw [readHealth, healthFaults, member]
      change EndsWith Raises
        (if ((Dict.get? members (ofString "status")).getD .null).isWord "ok" = true then _
          else if _ then _ else if _ then _ else _) ([] ++ _)
      rw [List.nil_append]
      dsimp only
      split
      · rw [← List.append_nil (_ ++ _)]
        exact committed_bind python _ fun n => .ok _
      · split
        · exact committed_bind python _ fun n => (toInt_endsWith python _).map _
        · split
          · exact .ok _
          · exact .error rfl
  | _ => exact .error rfl

/-! ### Bodies -/

variable (lib : Library)

/-- The faults of a body that is to be a document. -/
def bodyFaults (faults : Json → List Fault) (body : Bytes) : List Fault :=
  match lib.loads body with
  | .ok node => faults node
  -- not JSON, which is refused
  | .error (.valueError _) => [.refused]
  | .error why => [of why]

theorem body_endsWith {α : Type} {read : Json → Except JsonRaised α} {faults : Json → List Fault}
    (h : ∀ node, EndsWith Raises (read node) (faults node)) (body : Bytes) :
    EndsWith Raises (do read (← json lib body)) (bodyFaults lib faults body) := by
  rw [json, bodyFaults]
  cases lib.loads body with
  | ok node => exact h node
  | error why =>
      cases why with
      | _ => exact .error rfl

theorem sessionToken_endsWith (body : Bytes) :
    EndsWith Raises (sessionToken lib body) (bodyFaults lib (needed · "token") body) :=
  body_endsWith lib (subscript_endsWith · "token") body

/-- A body that tells why: an object, or no JSON at all. -/
def Explains (body : Bytes) : Prop :=
  (∃ members, lib.loads body = .ok (.object members)) ∨
    ∃ why, lib.loads body = .error (.valueError why)

theorem message_eq_ok_iff (body : Bytes) :
    (∃ text, message lib body = .ok text) ↔ Explains lib body := by
  rw [message, Explains]
  cases lib.loads body with
  | ok node =>
      cases node with
      | object members => exact iff_of_true ⟨_, rfl⟩ (.inl ⟨members, rfl⟩)
      | _ => exact iff_of_false (by rintro ⟨_, ⟨⟩⟩) (by simp)
  | error why =>
      cases why with
      | valueError why => exact iff_of_true ⟨_, rfl⟩ (.inr ⟨why, rfl⟩)
      | _ => exact iff_of_false (by simp) (by simp)

/-- Where there is a message, a class that is not there is none. -/
theorem code_of_explains {body : Bytes} (h : Explains lib body) :
    ∃ refusalClass, code lib body = .ok refusalClass := by
  rw [code]
  rcases h with ⟨members, h⟩ | ⟨why, h⟩
  · rw [h]
    have hword : (do Script.get (← (.ok (.object members) : Except JsonRaised Json)) "code") =
        .ok (Dict.get? members (ofString "code")) := rfl
    rw [hword]
    cases Dict.get? members (ofString "code") with
    | none => exact ⟨_, rfl⟩
    | some word =>
        cases word with
        | string word => exact ⟨_, rfl⟩
        | _ => exact ⟨_, rfl⟩
  · rw [h]
    exact ⟨none, rfl⟩

/-- **When a refused answer is raised as the refusal it is.** -/
theorem refusal_iff (answer : HttpAnswer) (location : Str) :
    (∃ text refusalClass, refusal lib answer location =
      .httpError answer.status text location refusalClass) ↔ Explains lib answer.body := by
  rw [← message_eq_ok_iff]
  constructor
  · rintro ⟨text, refusalClass, h⟩
    cases hmessage : message lib answer.body with
    | ok text => exact ⟨text, rfl⟩
    | error why =>
        rw [refusal, hmessage] at h
        cases h
  · rintro ⟨text, htext⟩
    obtain ⟨refusalClass, hcode⟩ := code_of_explains lib ((message_eq_ok_iff lib _).mp ⟨text, htext⟩)
    refine ⟨text, refusalClass, ?_⟩
    rw [refusal, htext, hcode]
    rfl

end DocumentFaults

end TessariDB
