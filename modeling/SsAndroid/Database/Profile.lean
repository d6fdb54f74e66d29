import SsAndroid.Lib.Json
import SsAndroid.Plugin.ProfileScreen

/-!
# Profiles and their JSON form

`Profile.toJson` is the writer.  It puts the settings of a profile into an object, with the app list
inside `proxy_apps`, and the address of the UDP fallback profile as a nested object.

`JsonParser` is the reader.  `process` walks through a document and takes every object that has a
server, a port, a password and a method for a profile; settings the object does not have come from
the *feature* profile.  A fallback is remembered in `fallbackMap` and linked by `finalize` once the
profiles are stored (see `ProfileManager`).

The keys of `fallbackMap` are profile objects.  They are represented by their place in the parser's
list, and a key is present when the profile at that place is equal to the new one.
-/

namespace SsAndroid

/-- `data class Profile`, without the direct-boot flag. -/
structure Profile where
  id : Int := 0
  name : Option Text := some []
  host : Text := "198.199.101.152".toList
  remotePort : Int := 8388
  password : Text := "u1rRWTssNv0p".toList
  method : Text := "aes-256-cfb".toList
  route : Text := "all".toList
  remoteDns : Text := "dns.google".toList
  proxyApps : Bool := false
  bypass : Bool := false
  udpdns : Bool := false
  ipv6 : Bool := true
  metered : Bool := false
  individual : Text := []
  tx : Int := 0
  rx : Int := 0
  userOrder : Int := 0
  plugin : Option Text := none
  udpFallback : Option Int := none
  deriving DecidableEq

namespace Profile

/-- `isNullOrEmpty`. -/
def isNullOrEmpty (s : Option Text) : Bool := s = none || s = some []

def formattedAddress (p : Profile) : Text :=
  (if p.host.contains ':' then ['['] ++ p.host ++ [']'] else p.host) ++ [':'] ++
    Number.ofInt p.remotePort

/-- `copyFeatureSettingsTo`; `f` is the receiver. -/
def copyFeatureSettingsTo (f profile : Profile) : Profile :=
  { profile with
    route := f.route
    ipv6 := f.ipv6
    metered := f.metered
    proxyApps := f.proxyApps
    bypass := f.bypass
    individual := f.individual
    udpdns := f.udpdns }

/-- `PluginConfiguration(plugin ?: "")`. -/
def configuration (p : Profile) : Except Exn PluginConfiguration :=
  PluginConfiguration.ofText (p.plugin.getD [])

/-- The options of the selected plugin; `empty` when none is selected. -/
def selectedOptions (defaultConfig : Text → Option Text) (p : Profile) :
    Except Exn PluginOptions :=
  match p.configuration with
  | .ok c => c.selectedOptions defaultConfig
  | .error e => .error e

/-! ### The writer -/

/-- `toJson()`: where the server is and how to talk to it. -/
def addressJson (p : Profile) : LinkedMap String Json :=
  (((LinkedMap.empty.put "server" (.str p.host)).put "server_port" (.ofInt p.remotePort)).put
    "password" (.str p.password)).put "method" (.str p.method)

def putPlugin (σ : IterationOrder Text (Option Text)) (o : PluginOptions)
    (json : LinkedMap String Json) : LinkedMap String Json :=
  if o.id = [] then json
  else (json.put "plugin" (.str o.id)).put "plugin_opts" (.str (o.print σ true))

/-- Putting `null` leaves the key out. -/
def putOpt (key : String) (value : Option Json) (json : LinkedMap String Json) :
    LinkedMap String Json :=
  match value with
  | some value => json.put key value
  | none => json

def proxyAppsJson (p : Profile) : LinkedMap String Json :=
  let json := LinkedMap.empty.put "enabled" (.bool p.proxyApps)
  if p.proxyApps then
    (json.put "bypass" (.bool p.bypass)).put "android_list"
      (.arr ((Text.split '\n' p.individual).map Json.str))
  else json

/-- The profile that is exported as UDP fallback. -/
def exportedFallback (profiles : Int → Option Profile) (p : Profile) : Option Profile :=
  match p.udpFallback with
  | none => none
  | some id =>
      match profiles id with
      | some fallback => if isNullOrEmpty fallback.plugin then some fallback else none
      | none => none

/-- The object of `toJson(profiles)`, for the options of the selected plugin. -/
def settingsJson (σ : IterationOrder Text (Option Text)) (profiles : Int → Option Profile)
    (p : Profile) (o : PluginOptions) : LinkedMap String Json :=
  let json := putPlugin σ o p.addressJson
  let json := putOpt "remarks" (p.name.map Json.str) json
  let json := json.put "route" (.str p.route)
  let json := json.put "remote_dns" (.str p.remoteDns)
  let json := json.put "ipv6" (.bool p.ipv6)
  let json := json.put "metered" (.bool p.metered)
  let json := json.put "proxy_apps" (.ofMap p.proxyAppsJson)
  let json := json.put "udpdns" (.bool p.udpdns)
  putOpt "udp_fallback"
    ((p.exportedFallback profiles).map fun fallback => .ofMap fallback.addressJson) json

/-- `toJson(profiles)`. -/
def toJson (σ : IterationOrder Text (Option Text)) (defaultConfig : Text → Option Text)
    (profiles : Int → Option Profile) (p : Profile) : Except Exn Json :=
  (p.selectedOptions defaultConfig).map fun o => .ofMap (p.settingsJson σ profiles o)

end Profile

/-! ### The reader -/

/-- `class JsonParser : ArrayList<Profile>`; a fallback stands under the place of its profile. -/
structure JsonParser where
  profiles : List Profile
  fallbackMap : LinkedMap Nat Profile

namespace JsonParser

def empty : JsonParser := ⟨[], LinkedMap.empty⟩

section Fields

variable (gson : Gson)

def optString (j : Option Json) : Option Text :=
  match j with
  | some j => if j.isPrimitive then some (gson.asString j) else none
  | none => none

def optBoolean (j : Option Json) : Option Bool :=
  match j with
  | some (.bool b) => some b
  | _ => none

def optInt (j : Option Json) : Option Int :=
  match j with
  | some j => if j.isPrimitive then gson.asInt j else none
  | none => none

/-- What `tryParse` demands: server, port, password and method. -/
def address (json : List (String × Json)) : Option (Text × Int × Text × Text) := do
  let host ← (optString gson (json.lookup "server")).filter (· ≠ [])
  let remotePort ← (optInt gson (json.lookup "server_port")).filter (0 < ·)
  let password ← (optString gson (json.lookup "password")).filter (· ≠ [])
  let method ← (optString gson (json.lookup "method")).filter (· ≠ [])
  pure (host, remotePort, password, method)

variable (σ : IterationOrder Text (Option Text)) (feature : Option Profile)

/-- The plugin string, if the object names a plugin. -/
def pluginText (json : List (String × Json)) : Except Exn (Option Text) :=
  match (optString gson (json.lookup "plugin")).filter (· ≠ []) with
  | none => .ok none
  | some id =>
      (PluginOptions.ofIdText id (optString gson (json.lookup "plugin_opts"))).map fun o =>
        some (o.print σ false)

/-- `tryParse(json, true)`. -/
def tryParseFallback (json : List (String × Json)) : Except Exn (Option Profile) :=
  match address gson json with
  | none => .ok none
  | some (host, remotePort, password, method) =>
      let profile : Profile :=
        { host := host, remotePort := remotePort, password := password, method := method }
      let profile :=
        match feature with
        | some f => f.copyFeatureSettingsTo profile
        | none => profile
      (pluginText gson σ json).map fun plugin =>
        some { profile with
          plugin := plugin
          name := optString gson (json.lookup "remarks")
          route := (optString gson (json.lookup "route")).getD profile.route }

/-- The settings a fallback does not have. -/
def parseSettings (json : List (String × Json)) (profile : Profile) : Profile :=
  let profile :=
    { profile with
      remoteDns := (optString gson (json.lookup "remote_dns")).getD profile.remoteDns
      ipv6 := (optBoolean (json.lookup "ipv6")).getD profile.ipv6
      metered := (optBoolean (json.lookup "metered")).getD profile.metered }
  let profile :=
    match json.lookup "proxy_apps" with
    | some (.obj it) =>
        { profile with
          proxyApps := (optBoolean (it.lookup "enabled")).getD profile.proxyApps
          bypass := (optBoolean (it.lookup "bypass")).getD profile.bypass
          individual :=
            -- `json`, not `it`
            match json.lookup "android_list" with
            | some (.arr elements) => Text.join ['\n'] (elements.map gson.toString)
            | _ => profile.individual }
    | _ => profile
  { profile with udpdns := (optBoolean (json.lookup "udpdns")).getD profile.udpdns }

/-- `tryParse(json)`: the profile, and the fallback to be remembered for it. -/
def tryParse (json : List (String × Json)) : Except Exn (Option (Profile × Option Profile)) :=
  match tryParseFallback gson σ feature json with
  | .error e => .error e
  | .ok none => .ok none
  | .ok (some profile) =>
      let profile := parseSettings gson json profile
      match json.lookup "udp_fallback" with
      | some (.obj fallback) =>
          (tryParseFallback gson σ feature fallback).map fun fallback => some (profile, fallback)
      | _ => .ok (some (profile, none))

end Fields

/-- The place of the key equal to `profile`, or the place `profile` is about to take. -/
def keyIndex (s : JsonParser) (profile : Profile) : Nat :=
  match s.fallbackMap.entries.find? (fun e => s.profiles[e.1]? = some profile) with
  | some e => e.1
  | none => s.profiles.length

/-- `fallbackMap[profile] = fallback`, if there is one, and `add(profile)`. -/
def add (s : JsonParser) (profile : Profile) (fallback : Option Profile) : JsonParser :=
  { profiles := s.profiles ++ [profile]
    fallbackMap :=
      match fallback with
      | some fallback => s.fallbackMap.put (s.keyIndex profile) fallback
      | none => s.fallbackMap }

section Process

variable (gson : Gson) (σ : IterationOrder Text (Option Text)) (feature : Option Profile)

mutual

/-- `process`: an object that is no profile is searched for profiles. -/
def process (s : JsonParser) : Json → Except Exn JsonParser
  | .obj json =>
      match tryParse gson σ feature json with
      | .error e => .error e
      | .ok (some (profile, fallback)) => .ok (s.add profile fallback)
      | .ok none => processEntries s json
  | .arr json => processElements s json
  | _ => .ok s

def processElements (s : JsonParser) : List Json → Except Exn JsonParser
  | [] => .ok s
  | json :: rest =>
      match process s json with
      | .error e => .error e
      | .ok s => processElements s rest

def processEntries (s : JsonParser) : List (String × Json) → Except Exn JsonParser
  | [] => .ok s
  | (_, json) :: rest =>
      match process s json with
      | .error e => .error e
      | .ok s => processEntries s rest

end

end Process

end JsonParser

end SsAndroid
