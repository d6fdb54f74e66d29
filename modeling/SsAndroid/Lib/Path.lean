import SsAndroid.Lib.Text

/-!
# Paths

A path is a text; its components are what stands between the slashes.  The operating system walks
through the components from the root: `.` stays, `..` goes back one directory (and stays at the root),
every other component is a name.

`reduce` takes a relative path by itself as far as that goes: some `..` in front, then names.
**`walk_eq`** says where a relative path leads from a directory, and **`prefix_walk_iff`** when that is
inside the directory.
-/

namespace SsAndroid

namespace Path

/-- The components of a path: the pieces between the slashes that are not empty. -/
def components (s : Text) : List Text := (Text.split '/' s).filter (fun c => c ≠ [])

/-- The path text of components, from the root. -/
def absolute (cs : List Text) : Text := cs.flatMap fun c => '/' :: c

/-- One component, from the directory that was reached. -/
def enter (dir : List Text) (c : Text) : List Text :=
  if c = ['.'] then dir else if c = ['.', '.'] then dir.dropLast else dir ++ [c]

/-- The directory that components lead to. -/
def walk (dir cs : List Text) : List Text := cs.foldl enter dir

/-- Where the operating system finds an absolute path. -/
def resolve (s : Text) : List Text := walk [] (components s)

/-- One component behind a path that goes up `r.1` times and then down `r.2`. -/
def reduceStep (r : Nat × List Text) (c : Text) : Nat × List Text :=
  if c = ['.'] then r
  else if c = ['.', '.'] then (if r.2 = [] then (r.1 + 1, []) else (r.1, r.2.dropLast))
  else (r.1, r.2 ++ [c])

/-- How often a relative path goes up in the end, and the names it then goes down. -/
def reduce (cs : List Text) : Nat × List Text := cs.foldl reduceStep (0, [])

/-- A component that is a name. -/
structure IsName (c : Text) : Prop where
  ne_nil : c ≠ []
  no_slash : '/' ∉ c
  ne_dot : c ≠ ['.']
  ne_dotdot : c ≠ ['.', '.']

/-- A directory below the root, by the names that lead to it. -/
structure Directory where
  names : List Text
  ne_nil : names ≠ []
  isName : ∀ c ∈ names, IsName c

/-! ### Components -/

theorem components_absolute {cs : List Text} (h : ∀ c ∈ cs, c ≠ [] ∧ '/' ∉ c) :
    components (absolute cs) = cs := by
  have hsplit : Text.split '/' (absolute cs) = [] :: cs := by
    induction cs with
    | nil => rfl
    | cons c cs ih =>
      have hrest := ih fun d hd => h d (List.mem_cons_of_mem c hd)
      have hslash : '/' ∉ c := (h c List.mem_cons_self).2
      show Text.split '/' ('/' :: (c ++ absolute cs)) = _
      rw [Text.split, if_pos rfl]
      cases cs with
      | nil =>
        rw [absolute, List.flatMap_nil, List.append_nil, Text.split_of_not_mem hslash]
      | cons d ds =>
        have hcons : absolute (d :: ds) = '/' :: (d ++ absolute ds) := rfl
        rw [hcons, Text.split, if_pos rfl] at hrest
        rw [hcons, Text.split_append_sep hslash, (List.cons.inj hrest).2]
  rw [components, hsplit, List.filter_cons_of_neg (by simp), List.filter_eq_self]
  intro c hc
  exact decide_eq_true (h c hc).1

theorem components_spec (s : Text) : ∀ c ∈ components s, c ≠ [] ∧ '/' ∉ c := by
  intro c hc
  obtain ⟨hmem, hne⟩ := List.mem_filter.mp hc
  exact ⟨of_decide_eq_true hne, Text.sep_not_mem_of_mem_split hmem⟩

theorem absolute_append (cs ds : List Text) : absolute (cs ++ ds) = absolute cs ++ absolute ds :=
  List.flatMap_append

/-! ### Walking -/

theorem walk_append (dir cs ds : List Text) : walk dir (cs ++ ds) = walk (walk dir cs) ds :=
  List.foldl_append

/-- Names are entered one after another. -/
theorem walk_names {cs : List Text} (h : ∀ c ∈ cs, IsName c) (dir : List Text) :
    walk dir cs = dir ++ cs := by
  induction cs generalizing dir with
  | nil => rw [List.append_nil]; rfl
  | cons c cs ih =>
    have hc := h c List.mem_cons_self
    have henter : enter dir c = dir ++ [c] := by
      rw [enter, if_neg hc.ne_dot, if_neg hc.ne_dotdot]
    show walk (enter dir c) cs = _
    rw [henter, ih fun d hd => h d (List.mem_cons_of_mem c hd), List.append_assoc,
      List.singleton_append]

/-- One step, seen from a directory and by itself. -/
theorem enter_eq (dir : List Text) (r : Nat × List Text) (c : Text) :
    enter (dir.take (dir.length - r.1) ++ r.2) c =
      dir.take (dir.length - (reduceStep r c).1) ++ (reduceStep r c).2 := by
  unfold enter reduceStep
  by_cases hdot : c = ['.']
  · rw [if_pos hdot, if_pos hdot]
  · rw [if_neg hdot, if_neg hdot]
    by_cases hdotdot : c = ['.', '.']
    · rw [if_pos hdotdot, if_pos hdotdot]
      by_cases hnames : r.2 = []
      · rw [if_pos hnames, hnames, List.append_nil, List.append_nil, List.dropLast_eq_take,
          List.length_take, List.take_take]
        congr 1
        omega
      · rw [if_neg hnames, List.dropLast_append_of_ne_nil hnames]
    · rw [if_neg hdotdot, if_neg hdotdot, List.append_assoc]

/-- **Where a relative path leads**: as many directories up as are left in front of it, then down. -/
theorem walk_eq (dir cs : List Text) :
    walk dir cs = dir.take (dir.length - (reduce cs).1) ++ (reduce cs).2 := by
  induction cs using List.reverseRecOn with
  | nil =>
    show dir = dir.take (dir.length - 0) ++ []
    rw [List.append_nil, Nat.sub_zero, List.take_length]
  | append_singleton cs c ih =>
    have hreduce : reduce (cs ++ [c]) = reduceStep (reduce cs) c := by
      rw [reduce, List.foldl_append]
      rfl
    rw [walk_append, ih, hreduce, ← enter_eq]
    rfl

/-- **When a relative path stays inside**: behind the `..` in front of it there come the names of the
directories they leave. -/
theorem prefix_walk_iff (dir cs : List Text) :
    dir <+: walk dir cs ↔ dir.drop (dir.length - (reduce cs).1) <+: (reduce cs).2 := by
  rw [walk_eq]
  conv_lhs =>
    lhs
    rw [← List.take_append_drop (dir.length - (reduce cs).1) dir]
  exact List.prefix_append_right_inj _

end Path

end SsAndroid
