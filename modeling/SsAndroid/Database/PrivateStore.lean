import SsAndroid.Database.KeyValuePair
import SsAndroid.Database.Profile
import SsAndroid.Lib.LinkedMap

/-!
# The profile that is being edited

The screen on which a profile is edited works on a key-value store.  `Profile.serialize` writes the
profile there when the screen opens, `Profile.deserialize` reads it back when the changes are saved.
A value is kept as bytes with the number of its type, and it is null for a reader of another type.

**`deserialize_serialize`**: whatever the store had in it, the fields come back, null texts as empty
ones, and the id under which the profile was edited is gone.  What it rests on is that the keys are
different (`get?_put_of_ne` with a decision for each pair) and that the four encodings are read as they
are written (`Written`).

The listeners of the store are left out; the only one there is notes that something has changed, under
a key that is not read here.
-/

namespace SsAndroid

/-! ### Bytes of a number -/

namespace ByteBuffer

/-- The low `k` bytes of a number, the high one first. -/
def bytesOf : Nat → Nat → List UInt8
  | 0, _ => []
  | k + 1, n => bytesOf k (n / 256) ++ [UInt8.ofNat n]

def natOf (bytes : List UInt8) : Nat := bytes.foldl (fun acc b => acc * 256 + b.toNat) 0

theorem length_bytesOf : ∀ k n : Nat, (bytesOf k n).length = k
  | 0, _ => rfl
  | k + 1, n => by rw [bytesOf, List.length_append, length_bytesOf k]; rfl

theorem natOf_bytesOf : ∀ k n : Nat, natOf (bytesOf k n) = n % 256 ^ k
  | 0, n => by rw [pow_zero, Nat.mod_one]; rfl
  | k + 1, n => by
      have hrest : natOf (bytesOf (k + 1) n) = natOf (bytesOf k (n / 256)) * 256 + n % 256 := by
        rw [natOf, bytesOf, List.foldl_append]
        rfl
      rw [hrest, natOf_bytesOf k (n / 256), pow_succ, Nat.mul_comm (256 ^ k) 256, Nat.mod_mul]
      omega

/-- `putLong` into a buffer of eight bytes. -/
def longBytes (n : Int) : List UInt8 := bytesOf 8 (n % 2 ^ 64).toNat

/-- A signed number of `k` bytes at the front of a buffer: `int` and `long`. -/
def readSigned (k : Nat) (bytes : List UInt8) : Except Exn Int :=
  if bytes.length < k then .error .bufferUnderflow
  else .ok (Int.bmod (natOf (bytes.take k)) (256 ^ k))

theorem readSigned_longBytes {n : Int} (hlo : -2 ^ 63 ≤ n) (hhi : n < 2 ^ 63) :
    readSigned 8 (longBytes n) = .ok n := by
  have hlength : (longBytes n).length = 8 := length_bytesOf 8 _
  have hnat : natOf (longBytes n) = (n % 2 ^ 64).toNat := by
    rw [longBytes, natOf_bytesOf]
    omega
  have hcast : (((n % 2 ^ 64).toNat : Nat) : Int) = n % 2 ^ 64 := by omega
  rw [readSigned, if_neg (by omega), List.take_of_length_le (by omega), hnat, hcast]
  refine congrArg Except.ok ?_
  have hmod : Int.bmod (n % 2 ^ 64) (2 ^ 64) = Int.bmod n (2 ^ 64) := by
    exact_mod_cast Int.emod_bmod (x := n) (n := 2 ^ 64)
  rw [show (256 : Nat) ^ 8 = 2 ^ 64 by norm_num, hmod]
  exact Int.bmod_eq_of_le (by omega) (by omega)

end ByteBuffer

open ByteBuffer

/-! ### Pairs -/

namespace KeyValuePair

def TYPE_BOOLEAN : Int := 1

def TYPE_INT : Int := 3

def TYPE_LONG : Int := 4

def TYPE_STRING : Int := 5

/-- `boolean`; `none` is null. -/
def boolean (p : KeyValuePair) : Except Exn (Option Bool) :=
  if p.valueType = TYPE_BOOLEAN then
    match p.value with
    | [] => .error .bufferUnderflow
    | b :: _ => .ok (some (b ≠ 0))
  else .ok none

/-- `long`, which also reads what was written as an `Int`. -/
def long (p : KeyValuePair) : Except Exn (Option Int) :=
  if p.valueType = TYPE_INT then (readSigned 4 p.value).map some
  else if p.valueType = TYPE_LONG then (readSigned 8 p.value).map some
  else .ok none

def string (p : KeyValuePair) : Except Exn (Option Text) :=
  .ok (if p.valueType = TYPE_STRING then some (Utf8.decode p.value) else none)

/-- `put(value: Boolean)`. -/
def putBoolean (p : KeyValuePair) (value : Bool) : KeyValuePair :=
  { p with valueType := TYPE_BOOLEAN, value := [if value then 1 else 0] }

/-- `put(value: Long)`. -/
def putLong (p : KeyValuePair) (value : Int) : KeyValuePair :=
  { p with valueType := TYPE_LONG, value := longBytes value }

/-- `put(value: String)`. -/
def putString (p : KeyValuePair) (value : Text) : KeyValuePair :=
  { p with valueType := TYPE_STRING, value := Text.utf8 value }

@[simp] theorem boolean_putBoolean (p : KeyValuePair) (value : Bool) :
    (p.putBoolean value).boolean = .ok (some value) := by
  cases value <;> rfl

theorem long_putLong (p : KeyValuePair) {value : Int} (hlo : -2 ^ 63 ≤ value)
    (hhi : value < 2 ^ 63) : (p.putLong value).long = .ok (some value) := by
  have htype : ¬ (p.putLong value).valueType = TYPE_INT := by simp [putLong, TYPE_LONG, TYPE_INT]
  rw [long, if_neg htype, if_pos (show (p.putLong value).valueType = TYPE_LONG from rfl)]
  show (readSigned 8 (longBytes value)).map some = _
  rw [readSigned_longBytes hlo hhi]
  rfl

@[simp] theorem string_putString (p : KeyValuePair) (value : Text) :
    (p.putString value).string = .ok (some value) := by
  rw [string, if_pos (show (p.putString value).valueType = TYPE_STRING from rfl)]
  show Except.ok (some (Utf8.decode (Text.utf8 value))) = _
  rw [Utf8.decode_utf8]

end KeyValuePair

/-! ### The store -/

namespace Key

def id : Text := "profileId".toList

def name : Text := "profileName".toList

def individual : Text := "Proxyed".toList

def route : Text := "route".toList

def proxyApps : Text := "isProxyApps".toList

def bypass : Text := "isBypassApps".toList

def udpdns : Text := "isUdpDns".toList

def ipv6 : Text := "isIpv6".toList

def metered : Text := "metered".toList

def host : Text := "proxy".toList

def password : Text := "sitekey".toList

def method : Text := "encMethod".toList

def remotePort : Text := "remotePortNum".toList

def remoteDns : Text := "remoteDns".toList

def plugin : Text := "plugin".toList

def udpFallback : Text := "udpFallback".toList

def dirty : Text := "profileDirty".toList

end Key

/-- `RoomPreferenceDataStore`: the rows of its table by their key. -/
abbrev RoomPreferenceDataStore := LinkedMap Text KeyValuePair

namespace RoomPreferenceDataStore

variable (s : RoomPreferenceDataStore)

/-- `kvPairDao[key]?.` with one of the getters. -/
def read {α : Type} (getter : KeyValuePair → Except Exn (Option α)) (key : Text) :
    Except Exn (Option α) :=
  match s.get? key with
  | none => .ok none
  | some pair => getter pair

def getBoolean (key : Text) : Except Exn (Option Bool) := read s KeyValuePair.boolean key

def getLong (key : Text) : Except Exn (Option Int) := read s KeyValuePair.long key

def getString (key : Text) : Except Exn (Option Text) := read s KeyValuePair.string key

def putBoolean (key : Text) (value : Bool) : RoomPreferenceDataStore :=
  s.put key (KeyValuePair.putBoolean { key := key } value)

/-- `putLong`; a null removes the row. -/
def putLong (key : Text) : Option Int → RoomPreferenceDataStore
  | none => s.remove key
  | some value => s.put key (KeyValuePair.putLong { key := key } value)

/-- `putString`; a null removes the row. -/
def putString (key : Text) : Option Text → RoomPreferenceDataStore
  | none => s.remove key
  | some value => s.put key (KeyValuePair.putString { key := key } value)

section Frames

variable {s} {key other : Text} {α : Type} (getter : KeyValuePair → Except Exn (Option α))

theorem read_putBoolean_of_ne (h : other ≠ key) (value : Bool) :
    read (s.putBoolean key value) getter other = read s getter other := by
  rw [read, putBoolean, LinkedMap.get?_put, if_neg h, read]

theorem read_remove_of_ne (h : other ≠ key) :
    read (s.remove key) getter other = read s getter other := by
  rw [read, LinkedMap.get?_remove, if_neg h, read]

theorem read_putLong_of_ne (h : other ≠ key) (value : Option Int) :
    read (s.putLong key value) getter other = read s getter other := by
  cases value with
  | none => exact read_remove_of_ne getter h
  | some value => rw [read, putLong, LinkedMap.get?_put, if_neg h, read]

theorem read_putString_of_ne (h : other ≠ key) (value : Option Text) :
    read (s.putString key value) getter other = read s getter other := by
  cases value with
  | none => exact read_remove_of_ne getter h
  | some value => rw [read, putString, LinkedMap.get?_put, if_neg h, read]

theorem read_putBoolean (value : Bool) :
    read (s.putBoolean key value) KeyValuePair.boolean key = .ok (some value) := by
  rw [read, putBoolean, LinkedMap.get?_put, if_pos rfl]
  exact KeyValuePair.boolean_putBoolean _ value

theorem read_putString (value : Option Text) :
    read (s.putString key value) KeyValuePair.string key = .ok value := by
  cases value with
  | none => rw [read, putString, LinkedMap.get?_remove, if_pos rfl]
  | some value =>
    rw [read, putString, LinkedMap.get?_put, if_pos rfl]
    exact KeyValuePair.string_putString _ value

theorem read_putLong {value : Option Int} (h : ∀ n ∈ value, -2 ^ 63 ≤ n ∧ n < 2 ^ 63) :
    read (s.putLong key value) KeyValuePair.long key = .ok value := by
  cases value with
  | none => rw [read, putLong, LinkedMap.get?_remove, if_pos rfl]
  | some n =>
    rw [read, putLong, LinkedMap.get?_put, if_pos rfl]
    exact KeyValuePair.long_putLong _ (h n rfl).1 (h n rfl).2

end Frames

end RoomPreferenceDataStore

/-- `parsePort(str, default, min)`. -/
def parsePort (str : Option Text) (default min : Int) : Int :=
  let value := (str.bind Number.parseInt).getD default
  if value < min ∨ 65535 < value then default else value

theorem parsePort_ofInt {port default min : Int} (hmin : min ≤ port) (hlo : 0 ≤ port)
    (hhi : port ≤ 65535) : parsePort (some (Number.ofInt port)) default min = port := by
  have hparse : Number.parseInt (Number.ofInt port) = some port :=
    Number.parseInteger_ofInt (by omega) (by omega)
  rw [parsePort, Option.bind_some, hparse, Option.getD_some, if_neg (by omega)]

namespace Profile

open RoomPreferenceDataStore

/-- `serialize()`: the private store after it. -/
def serialize (p : Profile) (s : RoomPreferenceDataStore) : RoomPreferenceDataStore :=
  let s := putLong s Key.id (some p.id)
  let s := putString s Key.name p.name
  let s := putString s Key.host (some p.host)
  let s := putString s Key.remotePort (some (Number.ofInt p.remotePort))
  let s := putString s Key.password (some p.password)
  let s := putString s Key.route (some p.route)
  let s := putString s Key.remoteDns (some p.remoteDns)
  let s := putString s Key.method (some p.method)
  let s := putBoolean s Key.proxyApps p.proxyApps
  let s := putBoolean s Key.bypass p.bypass
  let s := putBoolean s Key.udpdns p.udpdns
  let s := putBoolean s Key.ipv6 p.ipv6
  let s := putBoolean s Key.metered p.metered
  let s := putString s Key.individual (some p.individual)
  let s := putString s Key.plugin (some (p.plugin.getD []))
  let s := putLong s Key.udpFallback p.udpFallback
  s.remove Key.dirty

/-- `check(id == 0L || DataStore.editingId == id)`. -/
def checkEditing (q : Profile) (s : RoomPreferenceDataStore) : Except Exn Unit :=
  if q.id = 0 then .ok ()
  else
    match getLong s Key.id with
    | .error e => .error e
    | .ok editingId =>
        if editingId = some q.id then .ok () else .error (.illegalState "Check failed.")

/-- `deserialize()`: the profile and the private store after it, or what is thrown. -/
def deserialize (q : Profile) (s : RoomPreferenceDataStore) :
    Except Exn (Profile × RoomPreferenceDataStore) := do
  q.checkEditing s
  let s := putLong s Key.id none
  let name ← getString s Key.name
  let host ← getString s Key.host
  let remotePort ← getString s Key.remotePort
  let password ← getString s Key.password
  let method ← getString s Key.method
  let route ← getString s Key.route
  let remoteDns ← getString s Key.remoteDns
  let proxyApps ← getBoolean s Key.proxyApps
  let bypass ← getBoolean s Key.bypass
  let udpdns ← getBoolean s Key.udpdns
  let ipv6 ← getBoolean s Key.ipv6
  let metered ← getBoolean s Key.metered
  let individual ← getString s Key.individual
  let plugin ← getString s Key.plugin
  let udpFallback ← getLong s Key.udpFallback
  return ({ q with
    name := some (name.getD [])
    host := host.getD []
    remotePort := parsePort remotePort 8388 1
    password := password.getD []
    method := method.getD []
    route := route.getD []
    remoteDns := remoteDns.getD []
    proxyApps := proxyApps.getD false
    bypass := bypass.getD false
    udpdns := udpdns.getD false
    ipv6 := ipv6.getD false
    metered := metered.getD false
    individual := individual.getD []
    plugin := some (plugin.getD [])
    udpFallback := udpFallback }, s)

/-- The store has the fields of a profile, except its id. -/
structure Written (p : Profile) (s : RoomPreferenceDataStore) : Prop where
  name : getString s Key.name = .ok p.name
  host : getString s Key.host = .ok (some p.host)
  remotePort : getString s Key.remotePort = .ok (some (Number.ofInt p.remotePort))
  password : getString s Key.password = .ok (some p.password)
  method : getString s Key.method = .ok (some p.method)
  route : getString s Key.route = .ok (some p.route)
  remoteDns : getString s Key.remoteDns = .ok (some p.remoteDns)
  proxyApps : getBoolean s Key.proxyApps = .ok (some p.proxyApps)
  bypass : getBoolean s Key.bypass = .ok (some p.bypass)
  udpdns : getBoolean s Key.udpdns = .ok (some p.udpdns)
  ipv6 : getBoolean s Key.ipv6 = .ok (some p.ipv6)
  metered : getBoolean s Key.metered = .ok (some p.metered)
  individual : getString s Key.individual = .ok (some p.individual)
  plugin : getString s Key.plugin = .ok (some (p.plugin.getD []))
  udpFallback : getLong s Key.udpFallback = .ok p.udpFallback

variable {p : Profile}

/-- **Each field is found under its key**: no later write goes to the same one. -/
theorem serialize_written (s : RoomPreferenceDataStore) (h : ∀ n ∈ p.udpFallback, IsLong n) :
    p.Written (p.serialize s) := by
  constructor <;>
    simp (disch := decide) only [serialize, getString, getBoolean, getLong, read_remove_of_ne,
      read_putLong_of_ne, read_putString_of_ne, read_putBoolean_of_ne, read_putString,
      read_putBoolean]
  exact read_putLong h

theorem serialize_editingId (s : RoomPreferenceDataStore) (h : IsLong p.id) :
    getLong (p.serialize s) Key.id = .ok (some p.id) := by
  simp (disch := decide) only [serialize, getLong, read_remove_of_ne, read_putLong_of_ne,
    read_putString_of_ne, read_putBoolean_of_ne]
  apply read_putLong
  intro n hn
  rw [← Option.some.inj hn]
  exact h

/-- Forgetting the id leaves the other fields alone. -/
theorem Written.clear {s : RoomPreferenceDataStore} (h : p.Written s) :
    p.Written (putLong s Key.id none) := by
  constructor <;>
    simp (disch := decide) only [getString, getBoolean, getLong, read_putLong_of_ne]
  exacts [h.name, h.host, h.remotePort, h.password, h.method, h.route, h.remoteDns, h.proxyApps,
    h.bypass, h.udpdns, h.ipv6, h.metered, h.individual, h.plugin, h.udpFallback]

/-- **What was put into the store comes out of it**, whatever else is or was there. -/
theorem deserialize_serialize (p q : Profile) (s : RoomPreferenceDataStore)
    (hport : 1 ≤ p.remotePort ∧ p.remotePort ≤ 65535) (hid : IsLong p.id)
    (hfallback : ∀ n ∈ p.udpFallback, IsLong n) (hq : q.id = p.id) :
    ∃ s', q.deserialize (p.serialize s) = .ok
        ({ p with
            id := q.id, tx := q.tx, rx := q.rx, userOrder := q.userOrder
            name := some (p.name.getD []), plugin := some (p.plugin.getD []) }, s') ∧
      getLong s' Key.id = .ok none := by
  have hcheck : q.checkEditing (p.serialize s) = .ok () := by
    rw [checkEditing, serialize_editingId s hid, hq]
    split_ifs <;> simp
  have hw := (serialize_written s hfallback).clear
  have hparse : parsePort (some (Number.ofInt p.remotePort)) 8388 1 = p.remotePort :=
    parsePort_ofInt hport.1 (by omega) hport.2
  refine ⟨putLong (p.serialize s) Key.id none, ?_, ?_⟩
  · simp only [deserialize, hcheck, hw.name, hw.host, hw.remotePort, hw.password, hw.method,
      hw.route, hw.remoteDns, hw.proxyApps, hw.bypass, hw.udpdns, hw.ipv6, hw.metered,
      hw.individual, hw.plugin, hw.udpFallback, bind, Except.bind, pure, Except.pure,
      Option.getD_some, hparse]
  · exact read_putLong (fun n hn => absurd hn (by simp))

/-- A profile without a name is edited in a store that has something else under the keys. -/
def sampleEdited : Profile :=
  { id := 7, name := none, host := "::1".toList, remotePort := 443, udpFallback := some (-1) }

theorem deserialize_serialize_edited :
    ∃ s', ({ id := 7, tx := 5 } : Profile).deserialize
        (sampleEdited.serialize (LinkedMap.empty.put Key.name { key := Key.name, valueType := 3 })) =
      .ok ({ sampleEdited with tx := 5, name := some [], plugin := some [] }, s') ∧
      getLong s' Key.id = .ok none :=
  deserialize_serialize sampleEdited { id := 7, tx := 5 } _ (by decide) (by decide) (by decide) rfl

end Profile

end SsAndroid
