import SsAndroid.Lib.Text

/-!
# Listing a plugin's files

`PathProvider` is what a plugin fills the cursor of its content provider with: one row for each file,
among those the queried path asks for.  The host asks with an empty path and copies what it gets
(`SsAndroid.Plugin.PluginFiles`).

A `FileTree` is a file or a directory with its listing.  `addTo` descends while the path it has built
is a prefix of the base path, and `addPath` keeps a file if the base path is a prefix of it; the two
tests together leave the file whose path *is* the base path (`addTo_rows`).  **`lists_iff`** says when
that is what was asked for: exactly if no file of the tree extends the base path.  The empty base path
is extended by every file (`addTo_rootQuery`).
-/

namespace SsAndroid

/-- A file, or a directory with what `listFiles()` returns for it. -/
inductive FileTree
  | file (name : Text)
  | dir (name : Text) (children : List FileTree)

namespace FileTree

mutual

/-- The relative paths of the files of a tree that is placed behind `dst`. -/
def paths : FileTree → Text → List Text
  | .file name, dst => [dst ++ name]
  | .dir name children, dst => pathsAll children (dst ++ name ++ ['/'])

def pathsAll : List FileTree → Text → List Text
  | [], _ => []
  | f :: fs, dst => f.paths dst ++ pathsAll fs dst

end

def name : FileTree → Text
  | .file name => name
  | .dir name _ => name

mutual

theorem prefix_paths : ∀ (f : FileTree) (dst : Text), ∀ q ∈ f.paths dst, dst ++ f.name <+: q
  | .file name, dst => by
      intro q hq
      rw [paths, List.mem_singleton] at hq
      rw [hq]
      exact List.prefix_rfl
  | .dir name children, dst => by
      intro q hq
      rw [paths] at hq
      exact (List.prefix_append _ _).trans (prefix_pathsAll children _ q hq)

theorem prefix_pathsAll : ∀ (fs : List FileTree) (dst : Text), ∀ q ∈ pathsAll fs dst, dst <+: q
  | [], _ => by
      intro q hq
      rw [pathsAll] at hq
      exact absurd hq List.not_mem_nil
  | f :: fs, dst => by
      intro q hq
      rw [pathsAll, List.mem_append] at hq
      rcases hq with hq | hq
      · exact (List.prefix_append _ _).trans (prefix_paths f dst q hq)
      · exact prefix_pathsAll fs dst q hq

end

end FileTree

/-- A row of the cursor: `COLUMN_PATH` and `COLUMN_MODE`. -/
structure PathRow where
  path : Text
  mode : Int
  deriving DecidableEq

/-- `trim('/')`. -/
def trimSlashes (s : Text) : Text :=
  ((s.dropWhile (· = '/')).reverse.dropWhile (· = '/')).reverse

theorem trimSlashes_length_le (s : Text) : (trimSlashes s).length ≤ s.length := by
  have h1 := (List.dropWhile_sublist (· = '/') (l := s)).length_le
  have h2 := (List.dropWhile_sublist (· = '/') (l := (s.dropWhile (· = '/')).reverse)).length_le
  rw [List.length_reverse] at h2
  rw [trimSlashes, List.length_reverse]
  omega

/-- The provider for one query; its base path has no slash at either end. -/
structure PathProvider where
  basePath : Text
  trimmed : trimSlashes basePath = basePath

namespace PathProvider

open FileTree

theorem trimSlashes_trimSlashes (s : Text) : trimSlashes (trimSlashes s) = trimSlashes s :=
  Text.dropWhile_ends_eq_self (Text.head_dropWhile_ends s) (Text.getLast_dropWhile_ends s)

/-- The constructor; `path` is `baseUri.path`. -/
def ofPath (path : Option Text) : PathProvider :=
  match path with
  | some path => ⟨trimSlashes path, trimSlashes_trimSlashes path⟩
  | none => ⟨[], rfl⟩

/-- `0b110100100`, the mode of a file for which none is given. -/
def defaultMode : Int := 0b110100100

/-- `addPath(path, mode)`. -/
def addPath (p : PathProvider) (path : Text) (mode : Int) (cursor : List PathRow) : List PathRow :=
  let trimmed := trimSlashes path
  if p.basePath.isPrefixOf trimmed then cursor ++ [⟨trimmed, mode⟩] else cursor

mutual

/-- `addTo(file, to, mode)`. -/
def addTo (p : PathProvider) (mode : Int) : FileTree → Text → List PathRow → List PathRow
  | .file name, dst, cursor =>
      let sub := dst ++ name
      if sub.isPrefixOf p.basePath then p.addPath sub mode cursor else cursor
  | .dir name children, dst, cursor =>
      let sub := dst ++ name
      if sub.isPrefixOf p.basePath then p.addEach mode children (sub ++ ['/']) cursor else cursor

/-- `forEach { addTo(it, to, mode) }`. -/
def addEach (p : PathProvider) (mode : Int) : List FileTree → Text → List PathRow → List PathRow
  | [], _, cursor => cursor
  | f :: fs, dst, cursor => p.addEach mode fs dst (p.addTo mode f dst cursor)

end

/-- `addAt(file, at, mode)`. -/
def addAt (p : PathProvider) (mode : Int) (file : FileTree) (place : Text) (cursor : List PathRow) :
    List PathRow :=
  if place.isPrefixOf p.basePath then
    match file with
    | .dir _ children => p.addEach mode children place cursor
    | .file _ => p.addPath place mode cursor
  else cursor

/-! ### What is added -/

/-- The row of the file at a relative path. -/
def row (mode : Int) (path : Text) : PathRow := ⟨trimSlashes path, mode⟩

/-- **A file is listed under its own path only.** -/
theorem addPath_rows (p : PathProvider) (mode : Int) (sub : Text) (cursor : List PathRow) :
    (if sub.isPrefixOf p.basePath then p.addPath sub mode cursor else cursor) =
      cursor ++ ([sub].filter (· = p.basePath)).map (row mode) := by
  by_cases hsub : sub = p.basePath
  · have h1 : sub.isPrefixOf p.basePath = true := by
      rw [List.isPrefixOf_iff_prefix, hsub]
    have h2 : p.basePath.isPrefixOf (trimSlashes sub) = true := by
      rw [List.isPrefixOf_iff_prefix, hsub, p.trimmed]
    rw [if_pos h1, addPath, if_pos h2, List.filter_cons_of_pos (by simpa using hsub)]
    rfl
  · rw [List.filter_cons_of_neg (by simpa using hsub)]
    split_ifs with h1
    · -- no room is left between the two tests
      have hle := (List.isPrefixOf_iff_prefix.mp h1).length_le
      have htrim := trimSlashes_length_le sub
      have h2 : ¬ p.basePath.isPrefixOf (trimSlashes sub) = true := by
        intro h2
        have hge := (List.isPrefixOf_iff_prefix.mp h2).length_le
        exact hsub ((List.isPrefixOf_iff_prefix.mp h1).eq_of_length (by omega))
      rw [addPath, if_neg h2]
      simp
    · simp

/-- A directory that is not descended into has no file at the base path. -/
theorem filter_of_not_prefix {dst : Text} {qs : List Text} {b : Text} (hto : ¬ dst <+: b)
    (h : ∀ q ∈ qs, dst <+: q) : qs.filter (· = b) = [] := by
  rw [List.filter_eq_nil_iff]
  intro q hq heq
  have hqb : q = b := of_decide_eq_true heq
  exact hto (hqb ▸ h q hq)

mutual

/-- **`addTo` adds the files whose path is the base path.** -/
theorem addTo_rows (p : PathProvider) (mode : Int) : ∀ (f : FileTree) (dst : Text)
    (cursor : List PathRow),
    p.addTo mode f dst cursor =
      cursor ++ ((f.paths dst).filter (· = p.basePath)).map (row mode)
  | .file name, dst, cursor => by
      rw [addTo, paths]
      exact p.addPath_rows mode (dst ++ name) cursor
  | .dir name children, dst, cursor => by
      rw [addTo, paths]
      by_cases hsub : (dst ++ name).isPrefixOf p.basePath = true
      · rw [if_pos hsub]
        exact addEach_rows p mode children _ cursor
      · have hnone : (pathsAll children (dst ++ name ++ ['/'])).filter (· = p.basePath) = [] :=
          filter_of_not_prefix (fun h => hsub (List.isPrefixOf_iff_prefix.mpr h)) fun q hq =>
            (List.prefix_append _ _).trans (prefix_pathsAll children _ q hq)
        rw [if_neg hsub, hnone]
        simp

theorem addEach_rows (p : PathProvider) (mode : Int) : ∀ (fs : List FileTree) (dst : Text)
    (cursor : List PathRow),
    p.addEach mode fs dst cursor =
      cursor ++ ((pathsAll fs dst).filter (· = p.basePath)).map (row mode)
  | [], dst, cursor => by simp [addEach, pathsAll]
  | f :: fs, dst, cursor => by
      rw [addEach, addEach_rows p mode fs, addTo_rows p mode f, pathsAll, List.filter_append,
        List.map_append, List.append_assoc]

end

theorem addAt_rows (p : PathProvider) (mode : Int) (name : Text) (children : List FileTree)
    (place : Text) (cursor : List PathRow) :
    p.addAt mode (.dir name children) place cursor =
      cursor ++ ((pathsAll children place).filter (· = p.basePath)).map (row mode) := by
  rw [addAt]
  by_cases hplace : place.isPrefixOf p.basePath = true
  · rw [if_pos hplace]
    exact p.addEach_rows mode children place cursor
  · have hnone : (pathsAll children place).filter (· = p.basePath) = [] :=
      filter_of_not_prefix (fun h => hplace (List.isPrefixOf_iff_prefix.mpr h))
        (prefix_pathsAll children place)
    rw [if_neg hplace, hnone]
    simp

/-- A query for everything lists nothing. -/
theorem addTo_rootQuery (mode : Int) (f : FileTree) (dst : Text) (cursor : List PathRow)
    (hname : dst ++ f.name ≠ []) : (ofPath (some [])).addTo mode f dst cursor = cursor := by
  have hnone : (f.paths dst).filter (· = ([] : Text)) = [] :=
    filter_of_not_prefix (fun h => hname (List.prefix_nil.mp h)) (prefix_paths f dst)
  rw [addTo_rows]
  show cursor ++ ((f.paths dst).filter (· = ([] : Text))).map (row mode) = cursor
  rw [hnone]
  simp

/-! ### What was asked for -/

/-- To the cursor was added one row for each of the files that the base path is a prefix of. -/
def Lists (p : PathProvider) (mode : Int) (files : List Text) (before after : List PathRow) : Prop :=
  after.Perm (before ++ (files.filter fun q => p.basePath.isPrefixOf q).map (row mode))

/-- No file lies beyond the base path. -/
def NoneBeyond (p : PathProvider) (files : List Text) : Prop :=
  ∀ q ∈ files, p.basePath <+: q → q = p.basePath

theorem lists_rows_iff (p : PathProvider) (mode : Int) (files : List Text) (cursor : List PathRow) :
    p.Lists mode files cursor (cursor ++ (files.filter (· = p.basePath)).map (row mode)) ↔
      p.NoneBeyond files := by
  have hsub : files.filter (· = p.basePath) =
      (files.filter fun q => p.basePath.isPrefixOf q).filter (· = p.basePath) := by
    rw [List.filter_filter]
    apply List.filter_congr
    intro q _
    by_cases hq : q = p.basePath
    · simp [hq]
    · simp [hq]
  rw [Lists, List.perm_append_left_iff]
  constructor
  · intro hperm q hq hprefix
    have hlen := hperm.length_eq
    rw [List.length_map, List.length_map, hsub, List.length_filter_eq_length_iff] at hlen
    exact of_decide_eq_true (hlen q (List.mem_filter.mpr ⟨hq, List.isPrefixOf_iff_prefix.mpr hprefix⟩))
  · intro hnone
    have hall : (files.filter fun q => p.basePath.isPrefixOf q).filter (· = p.basePath) =
        files.filter fun q => p.basePath.isPrefixOf q := by
      rw [List.filter_eq_self]
      intro q hq
      obtain ⟨hq, hprefix⟩ := List.mem_filter.mp hq
      exact decide_eq_true (hnone q hq (List.isPrefixOf_iff_prefix.mp hprefix))
    rw [hsub, hall]

/-- **When the listing is the one asked for**: exactly if no file of the tree has a path that goes on
behind the base path, for `addTo` and for `addAt` alike. -/
theorem lists_iff (p : PathProvider) (mode : Int) (root : FileTree) (name : Text)
    (children : List FileTree) (dst : Text) (cursor : List PathRow) :
    (p.Lists mode (root.paths dst) cursor (p.addTo mode root dst cursor) ↔
      p.NoneBeyond (root.paths dst)) ∧
    (p.Lists mode (pathsAll children dst) cursor (p.addAt mode (.dir name children) dst cursor) ↔
      p.NoneBeyond (pathsAll children dst)) := by
  rw [addTo_rows, addAt_rows]
  exact ⟨p.lists_rows_iff mode _ cursor, p.lists_rows_iff mode _ cursor⟩

/-- The host's query, answered by a plugin with one executable: the cursor stays empty. -/
theorem rootQuery_lists_nothing :
    ¬ (ofPath (some [])).Lists defaultMode ((FileTree.file "obfs-local".toList).paths []) []
      ((ofPath (some [])).addTo defaultMode (.file "obfs-local".toList) [] []) := by
  rw [addTo_rows, lists_rows_iff]
  intro h
  exact absurd (h "obfs-local".toList (by simp [paths]) List.nil_prefix) (by decide)

end PathProvider

end SsAndroid
