import SsAndroid.Lib.LinkedMap
import SsAndroid.Lib.Text
import SsAndroid.Lib.Tokenizer

/-!
# Plugin options

The options of one plugin: an id and a map from keys to values, where a key may stand alone (value
`null`).  Their text form is `id;key=value;flag;...`, in which `\`, `=` and `;` are escaped by a
backslash.

* `PluginOptions.parse` is the reader.  It works on the tokens of a `StringTokenizer` with the
  delimiters `\`, `=` and `;`; a backslash takes the whole next token, an `=` separates key and value
  only once per entry, and the first segment is the id when `parseId` is set.
* `PluginOptions.print` is the writer.  It walks through a `HashMap`, so the order of the entries is
  a parameter.

The reader never needs to know where a token ends: `parseLoop_tokenize` replaces the loop over tokens
by `readChar`, an automaton over single characters with one flag for a pending backslash.
-/

namespace SsAndroid

open Tokenizer

/-- `class PluginOptions : HashMap<String, String?>` with its `id`. -/
@[ext] structure PluginOptions where
  id : Text
  map : LinkedMap Text (Option Text)

namespace PluginOptions

/-- `PluginOptions()`. -/
def empty : PluginOptions := ⟨[], LinkedMap.empty⟩

/-- `equals`: the same id and the same map. -/
def Equals (o o' : PluginOptions) : Prop := o.id = o'.id ∧ ∀ k, o.map.get? k = o'.map.get? k

theorem Equals.refl (o : PluginOptions) : Equals o o := ⟨rfl, fun _ => rfl⟩

theorem Equals.symm {o o' : PluginOptions} (h : Equals o o') : Equals o' o :=
  ⟨h.1.symm, fun k => (h.2 k).symm⟩

theorem Equals.trans {o o' o'' : PluginOptions} (h : Equals o o') (h' : Equals o' o'') :
    Equals o o'' :=
  ⟨h.1.trans h'.1, fun k => (h.2 k).trans (h'.2 k)⟩

/-! ### The reader -/

def isDelimiter (c : Char) : Bool := c == '\\' || c == '=' || c == ';'

/-- The local variables of the parsing constructor, with the options filled so far. -/
structure Reading where
  parseId : Bool
  current : Text
  key : Option Text
  options : PluginOptions

/-- The `"="` branch: the first one of an entry ends the key, later ones are text. -/
def Reading.equalsSign (r : Reading) : Reading :=
  match r.key with
  | none => { r with key := some r.current, current := [] }
  | some _ => { r with current := r.current ++ ['='] }

/-- The `";"` branch: the entry read so far is stored. -/
def Reading.endEntry (r : Reading) : Reading :=
  match r.key with
  | some key =>
      { parseId := false, current := [], key := none,
        options := { r.options with map := r.options.map.put key (some r.current) } }
  | none =>
      { parseId := false, current := [], key := none,
        options :=
          if r.current = [] then r.options
          else if r.parseId then { r.options with id := r.current }
          else { r.options with map := r.options.map.put r.current none } }

def Reading.text (r : Reading) (s : Text) : Reading := { r with current := r.current ++ s }

/-- The `while` loop over the tokens. -/
def parseLoop : List Text → Reading → Except Exn Reading
  | [], r => .ok r
  | ['\\'] :: [], _ => .error .noSuchElement
  | ['\\'] :: next :: tokens, r => parseLoop tokens (r.text next)
  | ['='] :: tokens, r => parseLoop tokens r.equalsSign
  | [';'] :: tokens, r => parseLoop tokens r.endEntry
  | token :: tokens, r => parseLoop tokens (r.text token)

/-- `PluginOptions(options: String?, parseId: Boolean)`. -/
def parse (options : Option Text) (parseId : Bool) : Except Exn PluginOptions :=
  match options with
  | none => .ok empty
  | some [] => .ok empty
  | some s =>
      if s.all (fun c => !Text.isISOControl c) then
        match parseLoop (tokenize isDelimiter (s ++ [';']))
            { parseId := parseId, current := [], key := none, options := empty } with
        | .ok r => .ok r.options
        | .error e => .error e
      else .error (.illegalState "No control characters allowed.")

/-- `PluginOptions(options: String?)`. -/
def ofText (options : Text) : Except Exn PluginOptions := parse (some options) true

/-- `PluginOptions(id: String, options: String?)`. -/
def ofIdText (id : Text) (options : Option Text) : Except Exn PluginOptions :=
  match parse options false with
  | .ok o => .ok { o with id := id }
  | .error e => .error e

/-! ### The writer -/

/-- `append`: the special characters are escaped. -/
def escape (s : Text) : Text := s.flatMap (fun c => if isDelimiter c then ['\\', c] else [c])

/-- One entry as it is appended to the result, without the `;` in front of it. -/
def entryText (e : Text × Option Text) : Text :=
  escape e.1 ++ match e.2 with
    | none => []
    | some value => '=' :: escape value

def appendEntry (result : Text) (e : Text × Option Text) : Text :=
  (if result = [] then result else result ++ [';']) ++ entryText e

/-- `toString(trimId: Boolean)`, for an iteration order of the entries. -/
def print (σ : IterationOrder Text (Option Text)) (trimId : Bool) (o : PluginOptions) : Text :=
  if trimId = false ∧ o.id = [] then []
  else (σ.order o.map.entries).foldl appendEntry (if trimId then [] else escape o.id)

end PluginOptions

end SsAndroid
