import SsAndroid.Plugin.PluginOptionsRoundTrip
import SsAndroid.Utils.Commandline

/-!
# Plugin configurations and the profile screen

A profile stores the options of all its plugins as one string, a line per plugin.  The selected
plugin is the one on the first line; an empty first line means that none is selected.  Lines that
start with `kcptun ` are in an old format and go through the command-line parser instead.

`PluginConfiguration.ofText` and `PluginConfiguration.print` are the reader and the writer,
`Screen.step` is what the profile screen does with them: select a plugin, edit the options of the
selected one, reload the configuration from the stored string.

The section `Screen` ends with the definitions a reader of the screen's contract needs: `History`
keeps the selection and the texts entered so far, and `expectedOptions` says which options a plugin
has according to it.  They do not mention lines, printing or parsing.
-/

namespace SsAndroid

/-- `class PluginConfiguration(val pluginsOptions: Map<String, PluginOptions>, val selected: String)`. -/
structure PluginConfiguration where
  pluginsOptions : LinkedMap Text PluginOptions
  selected : Text

namespace PluginConfiguration

/-! ### The reader -/

def kcptunPrefix : Text := "kcptun ".toList

def put (o : PluginOptions) (key : Text) (value : Option Text) : PluginOptions :=
  { o with map := o.map.put key value }

/-- The loop over kcptun's arguments.  An exception ends it and is only logged, so the options read
up to there stay. -/
def kcptunLoop : List Text → PluginOptions → PluginOptions
  | [], opt => opt
  | option :: rest, opt =>
      if option = "--nocomp".toList then kcptunLoop rest (put opt "nocomp".toList none)
      else if "--".toList.isPrefixOf option then
        match rest with
        | [] => opt  -- `iterator.next()` throws
        | value :: rest' => kcptunLoop rest' (put opt (option.drop 2) (some value))
      else opt  -- unknown parameter

def kcptunOptions (line : Text) : PluginOptions :=
  let opt : PluginOptions := { PluginOptions.empty with id := "kcptun".toList }
  match Commandline.translateCommandline line with
  | .ok args => kcptunLoop (args.drop 1) opt
  | .error _ => opt

def parseLine (line : Text) : Except Exn PluginOptions :=
  if kcptunPrefix.isPrefixOf line then .ok (kcptunOptions line) else PluginOptions.ofText line

/-- All lines, or the first exception. -/
def parseLines : List Text → Except Exn (List PluginOptions)
  | [] => .ok []
  | line :: lines =>
      match parseLine line with
      | .error e => .error e
      | .ok o => (parseLines lines).map (fun os => o :: os)

/-- `PluginConfiguration(plugins: List<PluginOptions>)`. -/
def ofList (plugins : List PluginOptions) : PluginConfiguration :=
  { pluginsOptions :=
      LinkedMap.ofEntries ((plugins.filter (fun o => o.id ≠ [])).map (fun o => (o.id, o)))
    selected :=
      match plugins with
      | [] => []
      | o :: _ => o.id }

/-- `PluginConfiguration(plugin: String)`. -/
def ofText (plugin : Text) : Except Exn PluginConfiguration :=
  (parseLines (Text.split '\n' plugin)).map ofList

/-! ### Options and the writer -/

/-- `getOptions(id)`; `defaultConfig id` is `PluginManager.fetchPlugins()[id]?.defaultConfig`. -/
def getOptions (defaultConfig : Text → Option Text) (c : PluginConfiguration) (id : Text) :
    Except Exn PluginOptions :=
  if id = [] then .ok PluginOptions.empty
  else
    match c.pluginsOptions.get? id with
    | some o => .ok o
    | none => PluginOptions.ofIdText id (defaultConfig id)

def selectedOptions (defaultConfig : Text → Option Text) (c : PluginConfiguration) :
    Except Exn PluginOptions :=
  c.getOptions defaultConfig c.selected

/-- The options in the order they are printed: the selected ones in front. -/
def inOrder (selected : Text) (es : List (Text × PluginOptions)) : List PluginOptions :=
  es.foldl (fun result e => if e.1 = selected then e.2 :: result else result ++ [e.2]) []

/-- `toString()`. -/
def print (σ : IterationOrder Text (Option Text)) (defaultConfig : Text → Option Text)
    (c : PluginConfiguration) : Except Exn Text :=
  let listed := inOrder c.selected c.pluginsOptions.entries
  let result : Except Exn (List PluginOptions) :=
    match c.pluginsOptions.get? c.selected with
    | some _ => .ok listed
    | none => (c.selectedOptions defaultConfig).map (fun o => o :: listed)
  result.map (fun os => Text.join ['\n'] (os.map (PluginOptions.print σ false)))

end PluginConfiguration

/-! ### The profile screen -/

/-- The stored string (`DataStore.plugin`) and the fragment's `pluginConfiguration`. -/
structure Screen where
  stored : Text
  configuration : PluginConfiguration

namespace Screen

/-- What the user does on the screen; selecting none is selecting the empty id. -/
inductive Step
  | select (id : Text)
  | edit (options : Text)
  | reload

/-- `initPlugins`: the configuration is read from the stored string. -/
def initPlugins (stored : Text) : Except Exn Screen :=
  (PluginConfiguration.ofText stored).map (fun c => ⟨stored, c⟩)

variable (σ : IterationOrder Text (Option Text)) (defaultConfig : Text → Option Text)

/-- The listener of the plugin preference. -/
def select (s : Screen) (newValue : Text) : Except Exn Screen :=
  let c : PluginConfiguration := ⟨s.configuration.pluginsOptions, newValue⟩
  (c.print σ defaultConfig).map (fun stored => ⟨stored, c⟩)

/-- `onPreferenceChange`: exceptions are shown and change nothing but the configuration assigned
before them.  The preference is disabled while no plugin is selected. -/
def onPreferenceChange (s : Screen) (newValue : Text) : Screen :=
  let selected := s.configuration.selected
  if selected = [] then s
  else
    match PluginOptions.ofIdText selected (some newValue) with
    | .error _ => s
    | .ok o =>
        let c : PluginConfiguration := ⟨s.configuration.pluginsOptions.put selected o, selected⟩
        match c.print σ defaultConfig with
        | .error _ => { s with configuration := c }
        | .ok stored => ⟨stored, c⟩

def step (s : Screen) : Step → Except Exn Screen
  | .select id => s.select σ defaultConfig id
  | .edit options => .ok (s.onPreferenceChange σ defaultConfig options)
  | .reload => initPlugins s.stored

def run (s : Screen) : List Step → Except Exn Screen
  | [] => .ok s
  | a :: as =>
      match s.step σ defaultConfig a with
      | .ok s' => run s' as
      | .error e => .error e

end Screen

/-! ### What the screen is for -/

/-- The selection and the options text last entered for each plugin. -/
structure History where
  selected : Text
  entered : Text → Option Text

namespace History

/-- Nothing has been done yet: the selection is the initial one. -/
def initial (c : PluginConfiguration) : History := ⟨c.selected, fun _ => none⟩

def step (h : History) : Screen.Step → History
  | .select id => { h with selected := id }
  | .edit options =>
      if h.selected = [] then h
      else { h with entered := Function.update h.entered h.selected (some options) }
  | .reload => h

def run (h : History) (as : List Screen.Step) : History := as.foldl step h

/-- The options a plugin has: those last entered, else those of the initial configuration, else the
plugin's default. -/
def expectedOptions (defaultConfig : Text → Option Text) (initial : PluginConfiguration)
    (h : History) (id : Text) : Except Exn PluginOptions :=
  if id = [] then .ok PluginOptions.empty
  else
    match h.entered id with
    | some text => PluginOptions.ofIdText id (some text)
    | none => initial.getOptions defaultConfig id

end History

end SsAndroid
