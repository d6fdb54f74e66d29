import SsAndroid.Lib.Path

/-!
# Copying a plugin's files

When a plugin cannot be executed where it is installed, `initNativeSlow` copies its files: the plugin's
content provider lists paths and modes, and each file is written below the plugin directory.  The guard
against paths that lead elsewhere compares texts: the absolute path of the file has to start with the
one of the directory.  `File` joins paths and collapses slashes, but it does not resolve `.` and `..`.

**`opened_inside_iff`**: the files that are opened for writing are inside the plugin directory exactly
if every path that is reached, resolved by itself, has no `..` left in front of it, or comes back into
the directory by its name.
-/

namespace SsAndroid

namespace PluginManager

open SsAndroid.Path

/-- `Cursor.getInt`, `Cursor.getString(1).toInt(8)` (if that is a number), or another type. -/
inductive FileMode
  | integer (mode : Int)
  | string (octal : Option Int)
  | other

/-- One row of the cursor, with what the platform does for it: whether the provider opens the file,
whether the copy can be created, and whether copying and `chmod` succeed. -/
structure PluginRow where
  path : Option Text
  mode : FileMode
  stream : Bool
  created : Bool
  copied : Bool
  chmod : Bool

/-- The files opened for writing so far, and `initialized`. -/
structure Copying where
  opened : List Text := []
  initialized : Bool := false

/-- `File(dir, child).absolutePath`. -/
def filePath (dir : Directory) (child : Text) : Text :=
  absolute dir.names ++ absolute (components child)

/-- `pluginDir.absolutePath + '/'`. -/
def pluginDirPath (dir : Directory) : Text := absolute dir.names ++ ['/']

/-- What is done once the file is open: copy the content, set the mode, and see whether this is the
plugin's executable. -/
def finishRow (id path : Text) (row : PluginRow) (s : Copying) : Copying × Option Exn :=
  if ¬ row.copied then (s, some (.io ""))
  else
    match row.mode with
    | .other => (s, some (.illegalArgument "File mode should be of type int"))
    | .string none => (s, some (.illegalArgument "For input string"))
    | _ =>
        if ¬ row.chmod then (s, some (.io "chmod failed"))
        else ({ s with initialized := s.initialized || path = id }, none)

/-- One round of the loop. -/
def copyRow (dir : Directory) (id : Text) (row : PluginRow) (s : Copying) : Copying × Option Exn :=
  match row.path with
  | none => (s, some .nullPointer)
  | some path =>
      if ¬ (pluginDirPath dir).isPrefixOf (filePath dir path) then
        (s, some (.illegalState "Check failed."))
      else if ¬ row.stream then (s, some .nullPointer)
      else if '\x00' ∈ path then (s, some (.io "Invalid file path"))
      else if ¬ row.created then (s, some (.io ""))
      else finishRow id path row { s with opened := s.opened ++ [filePath dir path] }

/-- The loop over the cursor. -/
def copyRows (dir : Directory) (id : Text) : List PluginRow → Copying → Copying × Option Exn
  | [], s => (s, none)
  | row :: rows, s =>
      match copyRow dir id row s with
      | (s, none) => copyRows dir id rows s
      | (s, some e) => (s, some e)

/-- `initNativeSlow`: the files it opens, and its result.  `cursor` is what the query returns,
`mkdirs` whether the plugin directory could be created. -/
def initNativeSlow (dir : Directory) (id : Text) (cursor : Option (List PluginRow)) (mkdirs : Bool) :
    List Text × Except Exn (Option Text) :=
  match cursor with
  | none => ([], .ok none)
  | some [] => ([], .error .indexOutOfBounds)
  | some rows =>
      if ¬ mkdirs then ([], .error (.io "Unable to create plugin directory"))
      else
        match copyRows dir id rows {} with
        | (s, some e) => (s.opened, .error e)
        | (s, none) =>
            if s.initialized then (s.opened, .ok (some (filePath dir id)))
            else (s.opened, .error .indexOutOfBounds)

/-! ### The guard -/

/-- **The guard lets every path pass that has a component**, whatever the components are. -/
theorem guard_iff (dir : Directory) (path : Text) :
    (pluginDirPath dir).isPrefixOf (filePath dir path) = true ↔ components path ≠ [] := by
  rw [List.isPrefixOf_iff_prefix, pluginDirPath, filePath, List.prefix_append_right_inj]
  cases components path with
  | nil => simp [absolute]
  | cons c cs =>
    refine iff_of_true ?_ (List.cons_ne_nil c cs)
    show ['/'] <+: '/' :: (c ++ absolute cs)
    exact List.cons_prefix_cons.mpr ⟨rfl, List.nil_prefix⟩

/-- A file is inside the directory, with `.` and `..` resolved. -/
def Inside (dir : Directory) (file : Text) : Prop := dir.names <+: resolve file

/-- The path, resolved by itself, stays in the directory: no `..` is left in front of it, or the
names behind those begin with the names of the directories they leave. -/
def Contained (dir : Directory) (path : Text) : Prop :=
  dir.names.drop (dir.names.length - (reduce (components path)).1) <+: (reduce (components path)).2

instance (dir : Directory) (path : Text) : Decidable (Contained dir path) :=
  inferInstanceAs (Decidable (_ <+: _))

theorem inside_filePath_iff (dir : Directory) (path : Text) :
    Inside dir (filePath dir path) ↔ Contained dir path := by
  have hall : ∀ c ∈ dir.names ++ components path, c ≠ [] ∧ '/' ∉ c := by
    intro c hc
    rcases List.mem_append.mp hc with hc | hc
    · exact ⟨(dir.isName c hc).ne_nil, (dir.isName c hc).no_slash⟩
    · exact components_spec path c hc
  rw [Inside, resolve, filePath, ← absolute_append, components_absolute hall, walk_append,
    walk_names dir.isName, List.nil_append, prefix_walk_iff]
  rfl

/-! ### The loop -/

/-- The row's file is opened for writing, if the row is reached. -/
def PluginRow.opens (row : PluginRow) : Bool :=
  match row.path with
  | none => false
  | some path => components path ≠ [] ∧ row.stream = true ∧ '\x00' ∉ path ∧ row.created = true

/-- What follows on the opening of the file succeeds. -/
def PluginRow.finishes (row : PluginRow) : Bool :=
  row.copied && row.chmod &&
    match row.mode with
    | .integer _ => true
    | .string octal => octal.isSome
    | .other => false

/-- The rows that are reached: up to the first that cannot be copied. -/
def reached : List PluginRow → List PluginRow
  | [] => []
  | row :: rows => row :: if row.opens && row.finishes then reached rows else []

theorem finishRow_spec (id path : Text) (row : PluginRow) (s : Copying) :
    (finishRow id path row s).1.opened = s.opened ∧
      ((finishRow id path row s).2 = none ↔ row.finishes = true) := by
  unfold finishRow PluginRow.finishes
  by_cases hcopied : row.copied = true
  · cases hmode : row.mode with
    | integer mode => by_cases hchmod : row.chmod = true <;> simp [hcopied, hchmod]
    | string octal =>
      cases octal with
      | none => simp [hcopied]
      | some mode => by_cases hchmod : row.chmod = true <;> simp [hcopied, hchmod]
    | other => simp [hcopied]
  · simp [hcopied]

/-- **One round**: the file is opened if the row opens one, and the loop goes on if that finishes. -/
theorem copyRow_spec (dir : Directory) (id : Text) (row : PluginRow) (s : Copying) :
    (copyRow dir id row s).1.opened =
      s.opened ++ (if row.opens then row.path.toList.map (filePath dir) else []) ∧
    ((copyRow dir id row s).2 = none ↔ (row.opens && row.finishes) = true) := by
  unfold copyRow PluginRow.opens
  cases row.path with
  | none => simp
  | some path =>
    by_cases hcomponents : components path = []
    · have hfails : ¬ (pluginDirPath dir).isPrefixOf (filePath dir path) = true := by
        rw [guard_iff]
        exact fun h => h hcomponents
      simp [hfails, hcomponents]
    · have hpasses : (pluginDirPath dir).isPrefixOf (filePath dir path) = true :=
        (guard_iff dir path).mpr hcomponents
      by_cases hstream : row.stream = true
      · by_cases hnul : '\x00' ∈ path
        · simp [hpasses, hcomponents, hstream, hnul]
        · by_cases hcreated : row.created = true
          · obtain ⟨hopened, hnone⟩ :=
              finishRow_spec id path row { s with opened := s.opened ++ [filePath dir path] }
            simp [hpasses, hcomponents, hstream, hnul, hcreated, hopened, hnone]
          · simp [hpasses, hcomponents, hstream, hnul, hcreated]
      · simp [hpasses, hcomponents, hstream]

/-- The files that rows open. -/
def filesOf (dir : Directory) (rows : List PluginRow) : List Text :=
  rows.flatMap fun row => if row.opens then row.path.toList.map (filePath dir) else []

/-- **The loop opens the files of the rows it reaches.** -/
theorem copyRows_opened (dir : Directory) (id : Text) (rows : List PluginRow) (s : Copying) :
    (copyRows dir id rows s).1.opened = s.opened ++ filesOf dir (reached rows) := by
  induction rows generalizing s with
  | nil => simp [copyRows, reached, filesOf]
  | cons row rows ih =>
    obtain ⟨hopened, hnone⟩ := copyRow_spec dir id row s
    have hfiles : filesOf dir (reached (row :: rows)) =
        (if row.opens then row.path.toList.map (filePath dir) else []) ++
          filesOf dir (if row.opens && row.finishes then reached rows else []) := by
      rw [reached, filesOf, List.flatMap_cons]
      rfl
    rw [copyRows, hfiles, ← List.append_assoc, ← hopened]
    rcases hrow : copyRow dir id row s with ⟨t, _ | e⟩
    · rw [hrow] at hnone
      rw [if_pos (hnone.mp rfl)]
      exact ih t
    · rw [hrow] at hnone
      rw [if_neg (fun h => absurd (hnone.mpr h) (by simp))]
      simp [filesOf]

theorem initNativeSlow_opened (dir : Directory) (id : Text) (rows : List PluginRow) (mkdirs : Bool) :
    (initNativeSlow dir id (some rows) mkdirs).1 =
      if mkdirs then filesOf dir (reached rows) else [] := by
  have hloop := copyRows_opened dir id rows {}
  rw [List.nil_append] at hloop
  cases rows with
  | nil => simp [initNativeSlow, reached, filesOf]
  | cons row rows =>
    by_cases hmkdirs : mkdirs = true
    · simp only [initNativeSlow, hmkdirs, not_true_eq_false, if_false, if_true]
      rw [← hloop]
      rcases copyRows dir id (row :: rows) {} with ⟨t, _ | e⟩
      · dsimp only
        split_ifs <;> rfl
      · rfl
    · simp [initNativeSlow, hmkdirs]

/-- **Every file that is opened for writing lies inside the plugin directory exactly if every path
that is reached and opened stays there by itself.** -/
theorem opened_inside_iff (dir : Directory) (id : Text) (rows : List PluginRow) (mkdirs : Bool) :
    (∀ file ∈ (initNativeSlow dir id (some rows) mkdirs).1, Inside dir file) ↔
      (mkdirs = true → ∀ row ∈ reached rows, row.opens = true → ∀ path, row.path = some path →
        Contained dir path) := by
  rw [initNativeSlow_opened]
  by_cases hmkdirs : mkdirs = true
  · rw [if_pos hmkdirs]
    constructor
    · intro h _ row hrow hopens path hpath
      rw [← inside_filePath_iff]
      apply h
      refine List.mem_flatMap.mpr ⟨row, hrow, ?_⟩
      rw [if_pos hopens, hpath]
      exact List.mem_singleton_self _
    · intro h file hfile
      obtain ⟨row, hrow, hfile⟩ := List.mem_flatMap.mp hfile
      by_cases hopens : row.opens = true
      · rw [if_pos hopens] at hfile
        obtain ⟨path, hpath, rfl⟩ := List.mem_map.mp hfile
        rw [inside_filePath_iff]
        exact h hmkdirs row hrow hopens path (Option.mem_toList.mp hpath)
      · rw [if_neg hopens] at hfile
        exact absurd hfile (by simp)
  · rw [if_neg hmkdirs]
    exact iff_of_true (by simp) (fun h => absurd h hmkdirs)

/-- `/data/plugin`. -/
def sampleDirectory : Directory where
  names := ["data".toList, "plugin".toList]
  ne_nil := by simp
  isName := by
    intro c hc
    rcases List.mem_cons.mp hc with rfl | hc
    · exact ⟨by decide, by decide, by decide, by decide⟩
    · obtain rfl := List.mem_singleton.mp hc
      exact ⟨by decide, by decide, by decide, by decide⟩

/-- A row with a path for which everything succeeds. -/
def rowOf (path : Text) : PluginRow := ⟨some path, .integer 0o755, true, true, true, true⟩

/-- A provider that lists `../evil` gets a file written next to the plugin directory. -/
theorem opened_outside :
    (initNativeSlow sampleDirectory "p".toList (some [rowOf "../evil".toList]) true).1 =
      ["/data/plugin/../evil".toList] ∧
    resolve "/data/plugin/../evil".toList = ["data".toList, "evil".toList] ∧
    ¬ Inside sampleDirectory "/data/plugin/../evil".toList := by
  refine ⟨by decide +kernel, by decide +kernel, ?_⟩
  unfold Inside
  decide +kernel

end PluginManager

end SsAndroid
