import SsAndroid.Lib.Text

/-!
# URLs

`java.net.URL` as the program sees it: the parts it compares by, the text form, and `equals`, which
looks at the fragment but does not tell apart hosts that are equivalent nor a default port from an
omitted one.  How a text is taken apart is the platform's business (`UrlFormat`).
-/

namespace SsAndroid

open Text

/-- The parts of a URL; `port` is `-1` when there is none, `ref` is the fragment. -/
structure URL where
  protocol : Text
  authority : Text
  host : Text
  port : Int
  file : Text
  ref : Option Text
  deriving DecidableEq, Repr

/-- The constructor `URL(spec)` (`none` for a `MalformedURLException`), the text form, and the
host and protocol comparisons of the stream handler. -/
structure UrlFormat where
  parse : Text → Option URL
  toExternalForm : URL → Text
  hostsEqual : Text → Text → Bool
  equalsIgnoreCase : Text → Text → Bool
  getDefaultPort : Text → Int
  hostsEqual_refl : ∀ h, hostsEqual h h = true
  equalsIgnoreCase_refl : ∀ s, equalsIgnoreCase s s = true
  parse_empty : parse [] = none
  parse_toExternalForm : ∀ {s u}, parse s = some u → parse (toExternalForm u) = some u
  toExternalForm_singleLine : ∀ {s u}, parse s = some u → SingleLine s →
    SingleLine (toExternalForm u)

theorem mem_of_lookup {table : List (Text × URL)} {s : Text} {u : URL}
    (h : table.lookup s = some u) : (s, u) ∈ table := by
  obtain ⟨l₁, l₂, rfl, -⟩ := List.lookup_eq_some_iff.mp h
  exact List.mem_append_right _ List.mem_cons_self

/-- A format that knows the URLs of a table, each under one text. -/
def UrlFormat.ofTable (table : List (Text × URL))
    (hback : ∀ p ∈ table, ∃ q, table.find? (fun q => q.2 = p.2) = some q ∧
      table.lookup q.1 = some p.2)
    (hline : ∀ p ∈ table, p.1 ≠ [] ∧ SingleLine p.1) : UrlFormat where
  parse := fun s => table.lookup s
  toExternalForm := fun u => ((table.find? (fun q => q.2 = u)).map Prod.fst).getD []
  hostsEqual := fun g h => decide (g = h)
  equalsIgnoreCase := fun s t => decide (s = t)
  getDefaultPort := fun p => if p = "http".toList then 80 else -1
  hostsEqual_refl := fun _ => decide_eq_true rfl
  equalsIgnoreCase_refl := fun _ => decide_eq_true rfl
  parse_empty := by
    rw [List.lookup_eq_none_iff]
    intro p hp
    have hne := (hline p hp).1
    simpa using fun h => hne h
  parse_toExternalForm := by
    intro s u h
    obtain ⟨q, hq, hqu⟩ := hback _ (mem_of_lookup h)
    rw [hq]
    exact hqu
  toExternalForm_singleLine := by
    intro s u h _
    obtain ⟨q, hq, -⟩ := hback _ (mem_of_lookup h)
    rw [hq]
    exact (hline q (List.mem_of_find?_eq_some hq)).2

namespace URL

variable (U : UrlFormat)

def effectivePort (u : URL) : Int := if u.port = -1 then U.getDefaultPort u.protocol else u.port

/-- `URLStreamHandler.sameFile`. -/
def sameFile (u v : URL) : Bool :=
  U.equalsIgnoreCase u.protocol v.protocol && decide (u.file = v.file) &&
    decide (u.effectivePort U = v.effectivePort U) && U.hostsEqual u.host v.host

/-- `URL.equals`. -/
def equals (u v : URL) : Bool := decide (u.ref = v.ref) && sameFile U u v

theorem sameFile_of_parts {u v : URL} (hp : u.protocol = v.protocol) (hh : u.host = v.host)
    (hport : u.port = v.port) (hf : u.file = v.file) : sameFile U u v = true := by
  have heff : u.effectivePort U = v.effectivePort U := by rw [effectivePort, effectivePort, hport, hp]
  rw [sameFile, hp, hh, hf, heff, U.equalsIgnoreCase_refl, U.hostsEqual_refl]
  simp

end URL

end SsAndroid
