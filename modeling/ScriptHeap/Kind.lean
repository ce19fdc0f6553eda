/-!
# Kinds

Every script value has exactly one *kind*.  The kind chooses the operator rules, is the first byte
of a packed value, and is what `typeof` shows to a script.

## What is here

* `Kind` — the closed list of kinds, in the order of their tags.
* `Kind.tag`, `Kind.ofTag?` — the byte of a kind and the way back; tag `0` is never used.
* `Kind.name` — the word scripts see.
* `Kind.isDecodable`, `Kind.isHostReference`, `Kind.isNumeric` — the three classes of kinds that
  other modules ask about.
-/

set_option autoImplicit false
namespace ScriptHeap

/-- The kinds of script values.  The order of the constructors is the order of the tags. -/
inductive Kind where
  | uninit
  | string
  | integer
  | double
  | array
  | hostPointer
  | hostObject
  | error
  | dictionary
  | struct
  | packet
  | binaryFile
  | xmlFile
  | xmlNode
  | xmlAttributes
  | polCoreRef
  | accountRef
  | configFileRef
  | configElemRef
  | dataFileRef
  | dataElemRef
  | guildRef
  | partyRef
  | boundingBox
  | debugContext
  | scriptExRef
  | package
  | menuRef
  | mobileRef
  | offlineMobileRef
  | itemRef
  | boatRef
  | multiRef
  | clientRef
  | sqlConnection
  | sqlResultSet
  | sqlRow
  deriving DecidableEq, Repr, Inhabited

namespace Kind

/-- All kinds in tag order. -/
def all : List Kind :=
  [uninit, string, integer, double, array, hostPointer, hostObject, error, dictionary, struct,
    packet, binaryFile, xmlFile, xmlNode, xmlAttributes, polCoreRef, accountRef, configFileRef,
    configElemRef, dataFileRef, dataElemRef, guildRef, partyRef, boundingBox, debugContext,
    scriptExRef, package, menuRef, mobileRef, offlineMobileRef, itemRef, boatRef, multiRef,
    clientRef, sqlConnection, sqlResultSet, sqlRow]

/-- The byte that stands for a kind, counted from one. -/
def tag (k : Kind) : UInt8 :=
  UInt8.ofNat (k.ctorIdx + 1)

/-- The kind a byte stands for. -/
def ofTag? (t : UInt8) : Option Kind :=
  if t = 0 then none else all[t.toNat - 1]?

/-- The word `typeof` shows. -/
def name : Kind → String
  | uninit => "Uninit"
  | string => "String"
  | integer => "Integer"
  | double => "Double"
  | array => "Array"
  | hostPointer => "ApplicPtr"
  | hostObject => "ApplicObj"
  | error => "Error"
  | dictionary => "Dictionary"
  | struct => "Struct"
  | packet => "Packet"
  | binaryFile => "BinaryFile"
  | xmlFile => "XMLFile"
  | xmlNode => "XMLNode"
  | xmlAttributes => "XMLAttributes"
  | polCoreRef => "PolCoreRef"
  | accountRef => "AccountRef"
  | configFileRef => "ConfigFileRef"
  | configElemRef => "ConfigElemRef"
  | dataFileRef => "DataFileRef"
  | dataElemRef => "DataElemRef"
  | guildRef => "GuildRef"
  | partyRef => "PartyRef"
  | boundingBox => "BoundingBox"
  | debugContext => "DebugContext"
  | scriptExRef => "ScriptExRef"
  | package => "Package"
  | menuRef => "MenuRef"
  | mobileRef => "MobileRef"
  | offlineMobileRef => "OfflineMobileRef"
  | itemRef => "ItemRef"
  | boatRef => "BoatRef"
  | multiRef => "MultiRef"
  | clientRef => "ClientRef"
  | sqlConnection => "SQLConnection"
  | sqlResultSet => "SQLResultSet"
  | sqlRow => "SQLRow"

/-- Whether a packed value may be of this kind. -/
def isDecodable : Kind → Bool
  | uninit | string | integer | double | array | struct | error => true
  | _ => false

/-- Whether the kind is one of the references into the host's own world. -/
def isHostReference (k : Kind) : Bool :=
  polCoreRef.tag ≤ k.tag && k.tag ≤ clientRef.tag

/-- Whether the kind takes part in arithmetic by itself. -/
def isNumeric : Kind → Bool
  | integer | double => true
  | _ => false

/-! ## Tags and kinds correspond -/

@[simp] theorem ofTag?_tag (k : Kind) : ofTag? k.tag = some k := by
  cases k <;> rfl

theorem tag_ne_zero (k : Kind) : k.tag ≠ 0 := by
  cases k <;> decide

theorem map_ctorIdx_all : all.map Kind.ctorIdx = List.range 37 := rfl

theorem ofTag?_eq_some_iff {t : UInt8} {k : Kind} : ofTag? t = some k ↔ t = k.tag := by
  constructor
  · intro h
    rw [ofTag?] at h
    split at h
    · cases h
    · rename_i ht
      have hidx : (all.map Kind.ctorIdx)[t.toNat - 1]? = some k.ctorIdx := by simp [h]
      rw [map_ctorIdx_all, List.getElem?_eq_some_iff] at hidx
      obtain ⟨_, hidx⟩ := hidx
      have hpos : t.toNat ≠ 0 := fun h0 ↦ ht (UInt8.toNat_inj.1 h0)
      rw [List.getElem_range] at hidx
      rw [tag, ← hidx, Nat.sub_add_cancel (by omega), UInt8.ofNat_toNat]
  · rintro rfl
    exact ofTag?_tag k

theorem tag_injective {j k : Kind} (h : j.tag = k.tag) : j = k := by
  have hj := ofTag?_tag j
  rw [h, ofTag?_tag] at hj
  exact (Option.some.inj hj).symm

end Kind
end ScriptHeap
