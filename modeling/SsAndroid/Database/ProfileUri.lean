import SsAndroid.Lib.Regex
import SsAndroid.Net.Uri
import SsAndroid.Database.JsonFields

/-!
# Profiles and their URIs

A profile is shared as `ss://userinfo@host:port?plugin=..#name`, where the user info is the URL-safe
Base64 of `method:password`.  `Profile.toUri` writes it; exporting to the clipboard joins the URIs of
all profiles by newlines (`Profile.exportText`).

`Profile.findAllUrls` goes the other way.  It looks for URIs in any text with the regular expression
`pattern` and reads each of them, a URI without user info in an old format in which the authority is
the Base64 of `method:password@host:port`.  What it cannot read it leaves out.

The file ends with what exporting and importing are expected to do: `Profile.Shareable` says which
profiles are meant, `Profile.SameServer` what a profile that was read has to agree in, and
`Profile.Recognisable` is the condition under which it does.
-/

namespace SsAndroid

namespace Profile

/-! ### The writer -/

/-- What the user info encodes. -/
def credentials (p : Profile) : Text := p.method ++ ':' :: p.password

/-- `auth`. -/
def auth (p : Profile) : Text := Base64.encode true (Text.utf8 p.credentials)

section Writer

variable (σ : IterationOrder Text (Option Text)) (defaultConfig : Text → Option Text)

/-- `toUri()`. -/
def toUri (p : Profile) : Except Exn Uri.Builder :=
  let builder : Uri.Builder :=
    { scheme := "ss".toList, encodedAuthority := authority p.auth p.host p.remotePort }
  let withPlugin : Except Exn Uri.Builder :=
    match p.configuration with
    | .error e => .error e
    | .ok configuration =>
        if configuration.selected ≠ [] then
          (configuration.selectedOptions defaultConfig).map fun o =>
            builder.appendQueryParameter "plugin".toList (o.print σ false)
        else .ok builder
  withPlugin.map fun builder =>
    if isNullOrEmpty p.name then builder else builder.setFragment (p.name.getD [])

/-- `toString()`. -/
def toText (p : Profile) : Except Exn Text := (p.toUri σ defaultConfig).map Uri.Builder.toText

/-- The text on the clipboard: `profiles.joinToString("\n")`. -/
def exportText (profiles : List Profile) : Except Exn Text :=
  (profiles.mapM (toText σ defaultConfig)).map (Text.join ['\n'])

end Writer

/-! ### The reader -/

/-- `[-a-zA-Z0-9+&@#/%?=.~*'()|!:,;\[\]]`. -/
def isUrlChar (c : Char) : Bool :=
  Percent.isAlphanumeric c || "-+&@#/%?=.~*'()|!:,;[]".toList.contains c

/-- `[-a-zA-Z0-9+&@#/%=.~*'()|\[\]]`. -/
def isLastUrlChar (c : Char) : Bool :=
  Percent.isAlphanumeric c || "-+&@#/%=.~*'()|[]".toList.contains c

/-- `.`. -/
def isDot (c : Char) : Bool := !Text.isLineTerminator c

def pattern : List Regex.Item :=
  Regex.literalIgnoreCase "ss://".toList ++ [⟨isUrlChar, .star⟩, ⟨isLastUrlChar, .once⟩]

/-- `^(.+?):(.*)$`. -/
def userInfoPattern : List Regex.Item := [⟨isDot, .lazyPlus⟩, Regex.char ':', ⟨isDot, .star⟩]

/-- `^(.+?):(.*)@(.+?):(\d+?)$`. -/
def legacyPattern : List Regex.Item :=
  [⟨isDot, .lazyPlus⟩, Regex.char ':', ⟨isDot, .star⟩, Regex.char '@', ⟨isDot, .lazyPlus⟩,
    Regex.char ':', ⟨Number.isDigit, .lazyPlus⟩]

/-- `profile.host` with the brackets of an IPv6 address taken off. -/
def unwrapped (host : Text) : Text :=
  if host.head? = some '[' ∧ host.getLast? = some ']' then (host.drop 1).dropLast else host

section Reader

variable (uri : URI) (toLowerCase : Text → Text) (feature : Option Profile)

/-- `Profile()` with the settings of the feature profile. -/
def fresh : Profile :=
  match feature with
  | some f => f.copyFeatureSettingsTo {}
  | none => {}

/-- The branch for a URI without user info; `none` where the exception is caught or nothing is
recognised. -/
def ofLegacyUrl (value : Text) : Except Exn (Option Profile) :=
  match Uri.host value with
  | none => .error .nullPointer
  | some encoded =>
      match (Base64.decode false encoded).bind fun bytes =>
          Regex.matchEntire legacyPattern (Utf8.decode bytes) with
      | some [method, _, password, _, host, _, port] =>
          .ok <| (Number.parseInt port).map fun remotePort =>
            { fresh feature with
              method := toLowerCase method
              password := password
              host := host
              remotePort := remotePort
              plugin := Uri.getQueryParameter "plugin".toList value
              name := Uri.fragment value }
      | _ => .ok none

/-- The branch for a URI with user info. -/
def ofUserInfo (value userInfo : Text) : Option Profile :=
  match (Base64.decode true userInfo).bind fun bytes =>
      Regex.matchEntire userInfoPattern (Utf8.decode bytes) with
  | some [method, _, password] =>
      (uri.parse value).map fun server =>
        { fresh feature with
          method := method
          password := password
          host := unwrapped (server.1.getD [])
          remotePort := server.2
          plugin := Uri.getQueryParameter "plugin".toList value
          name := some ((Uri.fragment value).getD []) }
  | _ => none

def ofUrl (value : Text) : Except Exn (Option Profile) :=
  match Uri.userInfo value with
  | none => ofLegacyUrl toLowerCase feature value
  | some userInfo => .ok (ofUserInfo uri feature value userInfo)

/-- `findAllUrls(data, feature)`. -/
def findAllUrls (data : Option Text) : Except Exn (List Profile) :=
  ((Regex.findAll pattern (data.getD [])).mapM (ofUrl uri toLowerCase feature)).map
    List.reduceOption

end Reader

/-! ### What sharing profiles is for -/

/-- The profiles that can be shared. -/
structure Shareable (p : Profile) : Prop where
  method : p.method ≠ [] ∧ ':' ∉ p.method ∧ Text.SingleLine p.method
  password : Text.SingleLine p.password
  host : IsHost p.host
  remotePort : 1 ≤ p.remotePort ∧ p.remotePort ≤ 65535
  name : ∃ name, p.name = some name ∧ Text.ControlFree name
  /-- The plugin string is empty or the text of one plugin's options. -/
  plugin : '\n' ∉ p.plugin.getD [] ∧ ∃ configuration, p.configuration = .ok configuration

/-- `q` leads to the same server as `p`, under the same name. -/
structure SameServer (defaultConfig : Text → Option Text) (p q : Profile) : Prop where
  method : q.method = p.method
  password : q.password = p.password
  host : q.host = p.host
  remotePort : q.remotePort = p.remotePort
  name : q.name = p.name
  plugin :
    PluginConfiguration.Agree (p.selectedOptions defaultConfig) (q.selectedOptions defaultConfig)

/-- A text whose escaped form is matched to its end: it has no underscore, and no exclamation mark
at the end. -/
def Unbroken (s : Text) : Prop := '_' ∉ s ∧ s.getLast? ≠ some '!'

/-- The condition under which a shared profile is recognised as a whole: no underscore is written,
the URI does not end with an exclamation mark, and the selected plugin's options are not taken for
something else when they are read. -/
structure Recognisable (σ : IterationOrder Text (Option Text)) (defaultConfig : Text → Option Text)
    (p : Profile) : Prop where
  credentials : 63 ∉ Base64.sextets (Text.utf8 p.credentials)
  name : Unbroken (p.name.getD [])
  plugin : ∀ o, p.selectedOptions defaultConfig = .ok o → o.id ≠ [] →
    '_' ∉ o.print σ false ∧ (p.name = some [] → (o.print σ false).getLast? ≠ some '!') ∧
      PluginOptions.ControlFree o ∧ PluginConfiguration.kcptunPrefix.isPrefixOf o.id = false

end Profile

end SsAndroid
