import SsAndroid.Lib.Machine
import SsAndroid.Lib.Number

/-!
# The line that is selected

`MainFragment` keeps the selected line in two places: the fields `lineId` and `lineName` of the
activity, which the screen shows, and a preference, which `startWithLineConfig` sends to the server.
Clicking on a line writes both.  The response to `getLineList` looks for the stored line and, if it is
not in the list, selects the first one instead; the edit of the preference is begun there and never
applied.

The two fields always belong to one line of the list, whose name is on the button (`Displayed`).  A run
is made of responses, clicks, starts and changes of the service's state.  **`start_sends_shown`**: what
is sent is what is shown as long as every response that changes the list has the stored line in it, or
has a first line with the number that would be sent anyway.  `onLineList_agrees_iff` says that this is
also necessary: any other response leaves the two apart.

The texts of the other views and the requests themselves are left out.
-/

namespace SsAndroid

namespace MainFragment

/-- `getLineData`. -/
structure Line where
  id : Text
  name : Text
  address : Text := []
  description : Text := []
  deriving DecidableEq

/-- `getLineListData`, as it is read from JSON: a field that is missing is null. -/
structure LineList where
  error : Option Text := none
  list : Option (List Line)
  deriving DecidableEq

/-- A request for a configuration: the `lineID` in it, and the fields of the activity and the line button
at that time. -/
structure Sent where
  lineID : Int
  lineId : Int
  lineName : Text
  prodectionList : List Line
  enable : Bool
  lineButton : Text
  deriving DecidableEq

/-- The text of the line button when there are no lines. -/
def noLine : Text := "无线路".toList

/-- The preference `lineIDKey`, the fields of the activity (`enable` tells whether its state is Idle or
Stopped), the text of the line button, and the requests sent. -/
structure Selection where
  lineIDKey : Option Text := none
  lineId : Int := 0
  lineName : Text := []
  prodectionList : List Line := []
  enable : Bool := true
  lineButton : Text := noLine
  sent : List Sent := []

/-- `updateLineButton()`: while a service is running the button keeps its text. -/
def updateLineButton (s : Selection) : Selection :=
  { s with lineButton :=
      if s.enable then (if s.prodectionList = [] then noLine else s.lineName) else s.lineButton }

/-- `String.toInt()`. -/
def toInt (s : Text) : Except Exn Int :=
  match Number.parseInt s with
  | some n => .ok n
  | none => .error (.illegalArgument ("For input string: \"" ++ String.ofList s ++ "\""))

/-- One round of the loop over the response; the flag is `lineIdOk`. -/
def visit (id : Text) (x : Selection × Bool) (line : Line) : Except Exn (Selection × Bool) :=
  let s := { x.1 with prodectionList := x.1.prodectionList ++ [line] }
  if line.id = id then
    (toInt line.id).map fun n => ({ s with lineName := line.name, lineId := n }, true)
  else .ok (s, x.2)

/-- The loop, up to a line whose id is no number. -/
def visitAll (id : Text) : List Line → Selection × Bool → Except Exn (Selection × Bool)
  | [], x => .ok x
  | line :: list, x =>
      match visit id x line with
      | .error e => .error e
      | .ok y => visitAll id list y

/-- What is done behind the loop: `edit().putString(..)` without `apply()` stores nothing. -/
def selectFirst (x : Selection × Bool) : Except Exn Selection :=
  match x.2, x.1.prodectionList with
  | false, first :: _ =>
      (toInt first.id).map fun n => { x.1 with lineName := first.name, lineId := n }
  | _, _ => .ok x.1

/-- The callback of `getLineList()`. -/
def onLineList (s : Selection) (d : Option LineList) : Except Exn Selection :=
  match d with
  | none => .ok s
  | some d =>
      if d.error ≠ none ∧ d.error ≠ some [] then .ok (updateLineButton s)
      else
        match d.list with
        | none => .error .nullPointer
        | some list =>
            ((visitAll (s.lineIDKey.getD []) list ({ s with prodectionList := [] }, false)).bind
              selectFirst).map updateLineButton

/-- `Holder.onClick`. -/
def onClick (s : Selection) (line : Line) : Except Exn Selection :=
  (toInt line.id).map fun n =>
    updateLineButton { s with lineIDKey := some line.id, lineId := n, lineName := line.name }

/-- The id that `startWithLineConfig` reads. -/
def storedId (s : Selection) : Text := s.lineIDKey.getD ['0']

/-- `startWithLineConfig()`, up to the request. -/
def startWithLineConfig (s : Selection) : Except Exn Selection :=
  (toInt (storedId s)).map fun lineID =>
    { s with sent :=
        ⟨lineID, s.lineId, s.lineName, s.prodectionList, s.enable, s.lineButton⟩ :: s.sent }

inductive LineAction
  | response (d : Option LineList)
  | click (line : Line)
  | start
  /-- `changeState`, to Idle or Stopped or to another state. -/
  | changeState (enable : Bool)

/-- What an action does if nothing is thrown; only lines of the list can be clicked. -/
def step (s : Selection) : LineAction → Option Selection
  | .response d => (onLineList s d).toOption
  | .click line => if line ∈ s.prodectionList then (onClick s line).toOption else none
  | .start => (startWithLineConfig s).toOption
  | .changeState enable => some (updateLineButton { s with enable := enable })

/-! ### The loop -/

theorem toOption_eq_some {α : Type} {x : Except Exn α} {a : α} (h : x.toOption = some a) :
    x = .ok a := by
  cases x with
  | error e => exact absurd h (by simp [Except.toOption])
  | ok b => rw [Option.some.inj h]

theorem map_eq_ok {α β : Type} {x : Except Exn α} {f : α → β} {b : β} (h : x.map f = .ok b) :
    ∃ a, x = .ok a ∧ b = f a := by
  cases x with
  | error e => exact absurd h (by simp [Except.map])
  | ok a => exact ⟨a, rfl, (Except.ok.inj h).symm⟩

theorem toInt_eq_ok {s : Text} {n : Int} (h : toInt s = .ok n) : Number.parseInt s = some n := by
  rw [toInt] at h
  split at h
  · rename_i m hm
    rw [hm, Except.ok.inj h]
  · exact absurd h (by simp)

/-- The selected line is this one. -/
def Named (s : Selection) (line : Line) : Prop :=
  Number.parseInt line.id = some s.lineId ∧ line.name = s.lineName

/-- What the loop has done: the list is the one of the response, and a line with the stored id is
selected if there is one. -/
structure Visited (id : Text) (list : List Line) (x y : Selection × Bool) : Prop where
  lineIDKey : y.1.lineIDKey = x.1.lineIDKey
  sent : y.1.sent = x.1.sent
  prodectionList : y.1.prodectionList = x.1.prodectionList ++ list
  lineIdOk : y.2 = true ↔ x.2 = true ∨ ∃ line ∈ list, line.id = id
  found : (∃ line ∈ list, line.id = id) → ∃ line ∈ list, line.id = id ∧ Named y.1 line
  notFound : (¬ ∃ line ∈ list, line.id = id) →
    y.1.lineId = x.1.lineId ∧ y.1.lineName = x.1.lineName

theorem visited_nil (id : Text) (x : Selection × Bool) : Visited id [] x x :=
  ⟨rfl, rfl, (List.append_nil _).symm, by simp, fun h => absurd h (by simp), fun _ => ⟨rfl, rfl⟩⟩

theorem visit_visited {id : Text} {x y : Selection × Bool} {line : Line}
    (h : visit id x line = .ok y) : Visited id [line] x y := by
  rw [visit] at h
  split_ifs at h with hid
  · obtain ⟨n, hn, rfl⟩ := map_eq_ok h
    refine ⟨rfl, rfl, rfl, by simp [hid], fun _ => ?_, fun hno => absurd hid (by simpa using hno)⟩
    exact ⟨line, List.mem_singleton_self line, hid, toInt_eq_ok hn, rfl⟩
  · rw [← Except.ok.inj h]
    exact ⟨rfl, rfl, rfl, by simp [hid], fun hex => absurd hex (by simp [hid]), fun _ => ⟨rfl, rfl⟩⟩

theorem Visited.trans {id : Text} {list list' : List Line} {x y z : Selection × Bool}
    (h : Visited id list x y) (h' : Visited id list' y z) : Visited id (list ++ list') x z := by
  have hsplit : (∃ line ∈ list ++ list', line.id = id) ↔
      (∃ line ∈ list, line.id = id) ∨ ∃ line ∈ list', line.id = id := by
    simp only [List.mem_append, or_and_right, exists_or]
  constructor
  · rw [h'.lineIDKey, h.lineIDKey]
  · rw [h'.sent, h.sent]
  · rw [h'.prodectionList, h.prodectionList, List.append_assoc]
  · rw [h'.lineIdOk, h.lineIdOk, hsplit, or_assoc]
  · intro hex
    by_cases hlater : ∃ line ∈ list', line.id = id
    · obtain ⟨line, hline, hid, hnamed⟩ := h'.found hlater
      exact ⟨line, List.mem_append_right _ hline, hid, hnamed⟩
    · obtain ⟨line, hline, hid, hnamed⟩ := h.found ((hsplit.mp hex).resolve_right hlater)
      obtain ⟨hlineId, hlineName⟩ := h'.notFound hlater
      refine ⟨line, List.mem_append_left _ hline, hid, ?_⟩
      rw [Named, hlineId, hlineName]
      exact hnamed
  · intro hno
    rw [hsplit, not_or] at hno
    exact ⟨(h'.notFound hno.2).1.trans (h.notFound hno.1).1,
      (h'.notFound hno.2).2.trans (h.notFound hno.1).2⟩

theorem visitAll_visited {id : Text} {list : List Line} : ∀ {x y : Selection × Bool},
    visitAll id list x = .ok y → Visited id list x y := by
  induction list with
  | nil =>
    intro x y h
    rw [← Except.ok.inj h]
    exact visited_nil id x
  | cons line list ih =>
    intro x y h
    rw [visitAll] at h
    split at h
    · exact absurd h (by simp)
    · rename_i z hz
      exact (visit_visited hz).trans (ih h)

/-- **A list with numeric ids is never refused.** -/
theorem onLineList_ok (s : Selection) {d : LineList} {list : List Line} (hlist : d.list = some list)
    (hnumeric : ∀ line ∈ list, (Number.parseInt line.id).isSome = true) :
    ∃ t, onLineList s (some d) = .ok t := by
  have htoInt : ∀ line ∈ list, ∃ n, toInt line.id = .ok n := by
    intro line hline
    obtain ⟨n, hn⟩ := Option.isSome_iff_exists.mp (hnumeric line hline)
    exact ⟨n, by rw [toInt, hn]⟩
  have hvisit : ∀ x, ∀ line ∈ list, ∃ y, visit (s.lineIDKey.getD []) x line = .ok y := by
    intro x line hline
    obtain ⟨n, hn⟩ := htoInt line hline
    rw [visit]
    split_ifs
    · exact ⟨_, by rw [hn]; rfl⟩
    · exact ⟨_, rfl⟩
  have hall : ∀ l : List Line, (∀ line ∈ l, line ∈ list) → ∀ x,
      ∃ y, visitAll (s.lineIDKey.getD []) l x = .ok y := by
    intro l
    induction l with
    | nil => exact fun _ x => ⟨x, rfl⟩
    | cons line l ih =>
      intro hl x
      obtain ⟨y, hy⟩ := hvisit x line (hl line List.mem_cons_self)
      rw [visitAll, hy]
      exact ih (fun m hm => hl m (List.mem_cons_of_mem _ hm)) y
  rw [onLineList]
  split_ifs with herror
  · exact ⟨_, rfl⟩
  · obtain ⟨y, hy⟩ := hall list (fun _ h => h) ({ s with prodectionList := [] }, false)
    have hfirst : y.1.prodectionList = list := (visitAll_visited hy).prodectionList
    rw [hlist]
    simp only
    rw [hy]
    show ∃ t, (selectFirst y).map updateLineButton = .ok t
    rw [selectFirst]
    split
    · rename_i first rest _ hcons
      obtain ⟨n, hn⟩ := htoInt first (by rw [← hfirst, hcons]; exact List.mem_cons_self)
      exact ⟨_, by rw [hn]; rfl⟩
    · exact ⟨_, rfl⟩

/-! ### The two places -/

/-- What would be sent is what is shown. -/
def Agrees (s : Selection) : Prop := Number.parseInt (storedId s) = some s.lineId

instance (s : Selection) : Decidable (Agrees s) := inferInstanceAs (Decidable (_ = _))

/-- The list has the stored line, or its first line has the number that would be sent. -/
def HasStored (s : Selection) (list : List Line) : Prop :=
  (∃ line ∈ list, s.lineIDKey = some line.id) ∨
    ∀ first ∈ list.head?, Number.parseInt first.id = Number.parseInt (storedId s)

instance (s : Selection) (list : List Line) : Decidable (HasStored s list) :=
  inferInstanceAs (Decidable (_ ∨ _))

/-- **What a list leaves behind**: a line of it is selected, the last one with the stored id if there is
one, else the first. -/
theorem selected_named {s t : Selection} {list : List Line}
    (h : (visitAll (s.lineIDKey.getD []) list ({ s with prodectionList := [] }, false)).bind
      selectFirst = .ok t) :
    t.prodectionList = list ∧ t.sent = s.sent ∧ t.lineIDKey = s.lineIDKey ∧
      ((∃ line ∈ list, line.id = s.lineIDKey.getD [] ∧ Named t line) ∨
        (¬ ∃ line ∈ list, line.id = s.lineIDKey.getD []) ∧ ∀ first ∈ list.head?, Named t first) := by
  cases hx : visitAll (s.lineIDKey.getD []) list ({ s with prodectionList := [] }, false) with
  | error e =>
    rw [hx] at h
    exact absurd h (by simp [Except.bind])
  | ok x =>
    rw [hx] at h
    replace h : selectFirst x = .ok t := h
    have hv := visitAll_visited hx
    have hlist : x.1.prodectionList = list := hv.prodectionList
    by_cases hfound : ∃ line ∈ list, line.id = s.lineIDKey.getD []
    · have hok : x.2 = true := hv.lineIdOk.mpr (Or.inr hfound)
      rw [selectFirst, hok] at h
      rw [← Except.ok.inj h]
      exact ⟨hlist, hv.sent, hv.lineIDKey, .inl (hv.found hfound)⟩
    · have hok : x.2 = false := by
        rw [← Bool.not_eq_true, hv.lineIdOk]
        simpa using hfound
      cases list with
      | nil =>
        rw [selectFirst, hok, hlist] at h
        rw [← Except.ok.inj h]
        exact ⟨hlist, hv.sent, hv.lineIDKey, .inr ⟨hfound, by simp⟩⟩
      | cons first rest =>
        rw [selectFirst, hok, hlist] at h
        obtain ⟨n, hn, rfl⟩ := map_eq_ok h
        refine ⟨hlist, hv.sent, hv.lineIDKey, .inr ⟨hfound, ?_⟩⟩
        intro f hf
        rw [← Option.some.inj hf]
        exact ⟨toInt_eq_ok hn, rfl⟩

/-- The two places agree behind a list exactly if it has the stored line, or a first line with its
number. -/
theorem selected_agrees_iff {s t : Selection} {list : List Line} (hne : list ≠ [])
    (h : (visitAll (s.lineIDKey.getD []) list ({ s with prodectionList := [] }, false)).bind
      selectFirst = .ok t) : Agrees t ↔ HasStored s list := by
  obtain ⟨-, -, hkey, ⟨line, hline, hid, hnum, -⟩ | ⟨hno, hfirst⟩⟩ := selected_named h
  · -- the stored line is selected; no line has an empty id, for it would be no number
    cases hstored : s.lineIDKey with
    | none =>
      rw [hid, hstored] at hnum
      exact absurd hnum (by simp [Number.parseInt, Number.parseInteger, Number.parseMagnitude])
    | some id =>
      rw [hstored, Option.getD_some] at hid
      refine iff_of_true ?_ (Or.inl ⟨line, hline, by rw [hstored, hid]⟩)
      rw [Agrees, storedId, hkey, hstored, Option.getD_some, ← hid]
      exact hnum
  · obtain ⟨first, rest, rfl⟩ := List.exists_cons_of_ne_nil hne
    obtain ⟨hnum, -⟩ := hfirst first rfl
    have hstored : storedId t = storedId s := by rw [storedId, storedId, hkey]
    rw [Agrees, hstored, HasStored]
    constructor
    · intro hagrees
      refine Or.inr ?_
      intro f hf
      rw [← Option.some.inj hf, hnum, hagrees]
    · rintro (⟨line, hline, hkey⟩ | hsame)
      · exact absurd ⟨line, hline, by rw [hkey]; rfl⟩ hno
      · rw [← hsame first rfl, hnum]

/-- The condition on a response, in the state it arrives in. -/
def Keeps (s : Selection) : LineAction → Prop
  | .response (some d) =>
      (d.error ≠ none ∧ d.error ≠ some []) ∨ d.list.getD [] = [] ∨ HasStored s (d.list.getD [])
  | _ => True

instance (s : Selection) (a : LineAction) : Decidable (Keeps s a) :=
  match a with
  | .response (some d) =>
      inferInstanceAs (Decidable ((d.error ≠ none ∧ d.error ≠ some []) ∨
        d.list.getD [] = [] ∨ HasStored s (d.list.getD [])))
  | .response none => isTrue trivial
  | .click _ => isTrue trivial
  | .start => isTrue trivial
  | .changeState _ => isTrue trivial

/-- **A response that changes the list** leaves the two places in agreement exactly if it meets the
condition. -/
theorem onLineList_agrees_iff {s t : Selection} {d : LineList} {list : List Line}
    (herror : ¬ (d.error ≠ none ∧ d.error ≠ some [])) (hlist : d.list = some list) (hne : list ≠ [])
    (h : onLineList s (some d) = .ok t) : Agrees t ↔ Keeps s (.response (some d)) := by
  rw [onLineList, if_neg herror, hlist] at h
  obtain ⟨u, hu, rfl⟩ := map_eq_ok h
  show Agrees u ↔ _
  rw [selected_agrees_iff hne hu, Keeps, hlist, Option.getD_some]
  constructor
  · exact fun hs => Or.inr (Or.inr hs)
  · rintro (he | hnil | hs)
    · exact absurd he herror
    · exact absurd hnil hne
    · exact hs

/-! ### What is on the screen -/

/-- The activity's fields belong to a line of the list, and the line button shows its name: a button that
is enabled does, and one that is not keeps its text. -/
structure Displayed (s : Selection) : Prop where
  named : s.prodectionList ≠ [] → ∃ line ∈ s.prodectionList, Named s line
  button : s.enable = true → s.lineButton = if s.prodectionList = [] then noLine else s.lineName

theorem start_displayed : Displayed {} := ⟨fun h => absurd rfl h, fun _ => rfl⟩

theorem updateLineButton_displayed {s : Selection}
    (h : s.prodectionList ≠ [] → ∃ line ∈ s.prodectionList, Named s line) :
    Displayed (updateLineButton s) :=
  ⟨h, fun henable => if_pos henable⟩

theorem response_displayed {s t : Selection} {d : Option LineList} (hs : Displayed s)
    (h : onLineList s d = .ok t) : Displayed t := by
  cases d with
  | none =>
    rw [← Except.ok.inj h]
    exact hs
  | some d =>
    rw [onLineList] at h
    split_ifs at h
    · rw [← Except.ok.inj h]
      exact updateLineButton_displayed hs.named
    · split at h
      · exact absurd h (by simp)
      · rename_i list hlist
        obtain ⟨u, hu, rfl⟩ := map_eq_ok h
        obtain ⟨hlines, -, -, hnamed⟩ := selected_named hu
        refine updateLineButton_displayed fun hne => ?_
        rw [hlines] at hne ⊢
        obtain ⟨line, hline, -, hnamed⟩ | ⟨-, hfirst⟩ := hnamed
        · exact ⟨line, hline, hnamed⟩
        · obtain ⟨first, rest, rfl⟩ := List.exists_cons_of_ne_nil hne
          exact ⟨first, List.mem_cons_self, hfirst first rfl⟩

theorem step_displayed {s t : Selection} {a : LineAction} (hs : Displayed s)
    (h : step s a = some t) : Displayed t := by
  cases a with
  | response d => exact response_displayed hs (toOption_eq_some h)
  | click line =>
    simp only [step] at h
    split_ifs at h with hline
    obtain ⟨n, hn, rfl⟩ := map_eq_ok (toOption_eq_some h)
    exact updateLineButton_displayed fun _ => ⟨line, hline, toInt_eq_ok hn, rfl⟩
  | start =>
    obtain ⟨lineID, -, rfl⟩ := map_eq_ok (toOption_eq_some h)
    exact ⟨hs.named, hs.button⟩
  | changeState enable =>
    rw [← Option.some.inj h]
    exact updateLineButton_displayed hs.named

/-! ### What is sent -/

/-- The id that was sent is the activity's `lineId`.  If there are lines, this is the id of one of them,
whose name is `lineName`; and an enabled line button shows this name, or that there is no line. -/
structure Sent.Shown (x : Sent) : Prop where
  lineID : x.lineID = x.lineId
  named : x.prodectionList ≠ [] →
    ∃ line ∈ x.prodectionList, Number.parseInt line.id = some x.lineID ∧ line.name = x.lineName
  button : x.enable = true → x.lineButton = if x.prodectionList = [] then noLine else x.lineName

/-- What a run keeps. -/
structure Consistent (s : Selection) : Prop where
  agrees : Agrees s
  displayed : Displayed s
  sent : ∀ x ∈ s.sent, x.Shown

theorem start_consistent : Consistent {} := ⟨by decide, start_displayed, by simp⟩

theorem response_sent {s t : Selection} {d : Option LineList} (h : onLineList s d = .ok t) :
    t.sent = s.sent := by
  cases d with
  | none => rw [← Except.ok.inj h]
  | some d =>
    rw [onLineList] at h
    split_ifs at h
    · rw [← Except.ok.inj h]
      rfl
    · split at h
      · exact absurd h (by simp)
      · obtain ⟨u, hu, rfl⟩ := map_eq_ok h
        exact (selected_named hu).2.1

theorem response_agrees {s t : Selection} {d : Option LineList} (hs : Agrees s)
    (hkeeps : Keeps s (.response d)) (h : onLineList s d = .ok t) : Agrees t := by
  cases d with
  | none =>
    rw [← Except.ok.inj h]
    exact hs
  | some d =>
    by_cases herror : d.error ≠ none ∧ d.error ≠ some []
    · rw [onLineList, if_pos herror] at h
      rw [← Except.ok.inj h]
      exact hs
    cases hlist : d.list with
    | none =>
      rw [onLineList, if_neg herror, hlist] at h
      exact absurd h (by simp)
    | some list =>
      by_cases hne : list = []
      · -- an empty list leaves the selection alone
        rw [onLineList, if_neg herror, hlist, hne] at h
        rw [← Except.ok.inj h]
        exact hs
      · exact (onLineList_agrees_iff herror hlist hne h).mpr hkeeps

theorem step_consistent {s t : Selection} {a : LineAction} (hs : Consistent s) (hkeeps : Keeps s a)
    (h : step s a = some t) : Consistent t := by
  have hdisplayed := step_displayed hs.displayed h
  cases a with
  | response d =>
    replace h := toOption_eq_some h
    exact ⟨response_agrees hs.agrees hkeeps h, hdisplayed, by rw [response_sent h]; exact hs.sent⟩
  | click line =>
    simp only [step] at h
    split_ifs at h
    obtain ⟨n, hn, rfl⟩ := map_eq_ok (toOption_eq_some h)
    exact ⟨toInt_eq_ok hn, hdisplayed, hs.sent⟩
  | start =>
    obtain ⟨lineID, hn, rfl⟩ := map_eq_ok (toOption_eq_some h)
    refine ⟨hs.agrees, hdisplayed, ?_⟩
    intro x hx
    rcases List.mem_cons.mp hx with rfl | hx
    · have hsame : lineID = s.lineId := Option.some.inj ((toInt_eq_ok hn).symm.trans hs.agrees)
      refine ⟨hsame, fun hne => ?_, hs.displayed.button⟩
      obtain ⟨line, hline, hnum, hname⟩ := hs.displayed.named hne
      exact ⟨line, hline, hsame ▸ hnum, hname⟩
    · exact hs.sent x hx
  | changeState enable =>
    rw [← Option.some.inj h] at hdisplayed ⊢
    exact ⟨hs.agrees, hdisplayed, hs.sent⟩

/-- **What is sent is what is shown**, in every run, from nothing stored, whose responses all have the
stored line in them, or a first line with its number. -/
theorem start_sends_shown (as : List LineAction) (s : Selection)
    (hrun : Machine.run step as {} = some s) (hkeeps : Machine.Along step Keeps as {}) :
    ∀ x ∈ s.sent, x.Shown :=
  (Machine.invariant_along (fun _ _ _ hs hP hstep => step_consistent hs hP hstep) start_consistent
    hkeeps hrun).sent

def lineZero : Line := { id := "0".toList, name := "auto".toList }

def lineFive : Line := { id := "5".toList, name := "fast".toList }

theorem start_sends_shown_clicked :
    ∃ s, Machine.run step [.response (some { list := some [lineZero, lineFive] }), .start,
        .changeState false, .changeState true, .click lineFive,
        .response (some { list := some [lineFive] }), .start] {} = some s ∧
      s.sent.map (fun x => (x.lineID, x.lineButton)) = [(5, "fast".toList), (0, "auto".toList)] ∧
      ∀ x ∈ s.sent, x.Shown :=
  ⟨_, rfl, by decide +kernel, start_sends_shown [.response (some { list := some [lineZero, lineFive] }),
    .start, .changeState false, .changeState true, .click lineFive,
    .response (some { list := some [lineFive] }), .start] _ rfl (by decide +kernel)⟩

/-- The first response ever has one line with the id 5.  The screen shows it, and 0 is sent. -/
theorem first_response_not_sent :
    ∃ s, Machine.run step [.response (some { list := some [lineFive] }), .start] {} = some s ∧
      s.lineButton = "fast".toList ∧ s.sent.map (fun x => (x.lineID, x.lineId)) = [(0, 5)] ∧
      ¬ ∀ x ∈ s.sent, x.Shown := by
  refine ⟨_, rfl, by decide +kernel, by decide +kernel, fun h => ?_⟩
  exact absurd (h _ List.mem_cons_self).lineID (by decide +kernel)

end MainFragment

end SsAndroid
