import ClusteringKeys.Proofs.KeyType.Order
import Mathlib

namespace ClusteringKeys

namespace Uuid

/-- Groups of bytes that end within the sixteen are complete. -/
theorem length_group (u : Uuid) (start length : Nat) (h : start + length ≤ 16) :
    ((u.bytes.drop start).take length).length = length := by
  rw [List.length_take, List.length_drop, u.length_eq]
  omega

theorem length_take_eight (u : Uuid) : (u.bytes.take 8).length = 8 :=
  u.length_group 0 8 (by decide)

private theorem toNat_group_lt (u : Uuid) (start length : Nat) (h : start + length ≤ 16) :
    Bytes.toNat ((u.bytes.drop start).take length) < 256 ^ length := by
  have hlt := Bytes.toNat_lt ((u.bytes.drop start).take length)
  rwa [u.length_group start length h] at hlt

theorem version_lt (u : Uuid) : u.version < 16 := by
  have hbyte := (u.bytes.getD 6 0).toNat_lt
  rw [version]
  omega

theorem timestamp_lt (u : Uuid) : u.timestamp < 2 ^ 60 := by
  have hlow : Bytes.toNat (u.bytes.take 4) < 256 ^ 4 := u.toNat_group_lt 0 4 (by decide)
  have hmiddle := u.toNat_group_lt 4 2 (by decide)
  rw [timestamp]
  omega

/-- The two bytes that the version shares with the high bits of the time. -/
private theorem toNat_versioned (u : Uuid) :
    Bytes.toNat ((u.bytes.drop 6).take 2) =
      u.version * 0x1000 + Bytes.toNat ((u.bytes.drop 6).take 2) % 0x1000 := by
  have hlength := u.length_eq
  have hsix : 6 < u.bytes.length := by omega
  have hseven : 7 < u.bytes.length := by omega
  have hbytes : (u.bytes.drop 6).take 2 = [u.bytes[6], u.bytes[7]] := by
    rw [List.drop_eq_getElem_cons hsix, List.drop_eq_getElem_cons hseven]
    rfl
  have hnumber : Bytes.toNat [u.bytes[6], u.bytes[7]] = 256 * u.bytes[6].toNat + u.bytes[7].toNat := by
    simp [Bytes.toNat]
  have hversion : u.version = u.bytes[6].toNat / 0x10 := by
    rw [version, List.getD_eq_getElem _ _ hsix]
  have hlast := u.bytes[7].toNat_lt
  rw [hbytes, hnumber, hversion]
  omega

/-- The first eight bytes write the low 32 bits of the time, the middle 16, the version, and the high 12 bits of the
    time. -/
theorem toNat_take_eight (u : Uuid) :
    Bytes.toNat (u.bytes.take 8) =
      u.timestamp % 0x100000000 * 0x100000000 + u.timestamp / 0x100000000 % 0x10000 * 0x10000 +
        u.version * 0x1000 + u.timestamp / 0x1000000000000 := by
  have hfields : u.bytes.take 8 = u.bytes.take 4 ++ ((u.bytes.drop 4).take 2 ++ (u.bytes.drop 6).take 2) := by
    have hfirst : u.bytes.take (4 + 4) = u.bytes.take 4 ++ (u.bytes.drop 4).take (2 + 2) := List.take_add
    rw [hfirst, List.take_add, List.drop_drop]
  have hlow : Bytes.toNat (u.bytes.take 4) < 256 ^ 4 := u.toNat_group_lt 0 4 (by decide)
  have hmiddle := u.toNat_group_lt 4 2 (by decide)
  have hversioned := toNat_versioned u
  rw [hfields, Bytes.toNat_append, Bytes.toNat_append, List.length_append, u.length_group 4 2 (by decide),
    u.length_group 6 2 (by decide), timestamp, hversioned]
  -- The parts of the time do not overlap, so division takes them apart again.
  omega

/-- Version and time determine the first eight bytes. -/
theorem take_eight_eq {u w : Uuid} (hversion : u.version = w.version) (htime : u.timestamp = w.timestamp) :
    u.bytes.take 8 = w.bytes.take 8 := by
  refine Bytes.toNat_injective (u.length_take_eight.trans w.length_take_eight.symm) ?_
  rw [toNat_take_eight, toNat_take_eight, hversion, htime]

theorem compare_take_eight {l r : Uuid} (htime : l.timestamp = r.timestamp) :
    Ord.compare (l.bytes.take 8) (r.bytes.take 8) = Ord.compare l.version r.version := by
  rw [Bytes.compare_eq_compare_toNat (l.length_take_eight.trans r.length_take_eight.symm), toNat_take_eight,
    toNat_take_eight, htime]
  -- For one time, what the bytes write grows with the version.
  rcases Nat.lt_trichotomy l.version r.version with h | h | h
  · rw [Nat.compare_eq_lt.mpr h, Nat.compare_eq_lt.mpr (by omega)]
  · rw [h, Std.ReflOrd.compare_self, Std.ReflOrd.compare_self]
  · rw [Nat.compare_eq_gt.mpr h, Nat.compare_eq_gt.mpr (by omega)]

theorem compare_bytes_eq (l r : Uuid) :
    Ord.compare l.bytes r.bytes =
      (Ord.compare (l.bytes.take 8) (r.bytes.take 8)).then (Ord.compare l.origin r.origin) := by
  rw [origin, origin, ← Bytes.compare_append (l.length_take_eight.trans r.length_take_eight.symm),
    List.take_append_drop, List.take_append_drop]

def signedOrigin (u : Uuid) : List Int :=
  u.origin.map fun x => x.toInt8.toInt

theorem origin_eq_of_signedOrigin {u w : Uuid} (h : u.signedOrigin = w.signedOrigin) : u.origin = w.origin := by
  refine List.map_injective_iff.mpr ?_ h
  intro x y hxy
  exact Function.LeftInverse.injective UInt8.toUInt8_toInt8 (Int8.toInt_inj.mp hxy)

/-- The bytes of identifiers of one time and origin order by version, which is all that is left to differ. -/
theorem compare_bytes_of_signedOrigin {l r : Uuid} (htime : l.timestamp = r.timestamp)
    (horigin : l.signedOrigin = r.signedOrigin) : Ord.compare l.bytes r.bytes = Ord.compare l.version r.version := by
  rw [compare_bytes_eq, compare_take_eight htime, origin_eq_of_signedOrigin horigin, Std.ReflOrd.compare_self,
    Ordering.then_eq]

theorem compareByTime_eq (l r : Uuid) :
    l.compareByTime r = (Ord.compare l.timestamp r.timestamp).then
      ((Ord.compare l.signedOrigin r.signedOrigin).then (Ord.compare l.version r.version)) := by
  refine then_eq_then_of_eq fun htime => then_eq_then_of_eq fun horigin => ?_
  exact compare_bytes_of_signedOrigin (Std.LawfulEqOrd.eq_of_compare htime) (Std.LawfulEqOrd.eq_of_compare horigin)

/-- Where the time counts, the bytes that write it do not count again. -/
theorem compare_eq_of_version (l r : Uuid) :
    l.compare r = (Ord.compare l.version r.version).then
      (if l.version = 1 then (Ord.compare l.timestamp r.timestamp).then (Ord.compare l.origin r.origin)
        else Ord.compare l.bytes r.bytes) := by
  refine then_eq_then_of_eq fun hversion => ?_
  split
  next =>
    refine then_eq_then_of_eq fun htime => ?_
    rw [compare_bytes_eq, take_eight_eq (Std.LawfulEqOrd.eq_of_compare hversion) (Std.LawfulEqOrd.eq_of_compare htime),
      Std.ReflOrd.compare_self, Ordering.eq_then]
  next => rfl

theorem bytes_ne_nil (u : Uuid) : u.bytes ≠ [] :=
  List.ne_nil_of_length_eq_add_one u.length_eq

theorem compare_uuid_bytes (l r : Uuid) : KeyType.uuid.compare l.bytes r.bytes = l.compare r := by
  rw [KeyType.compare_eq_compareNonempty _ l.bytes_ne_nil r.bytes_ne_nil]
  exact compareReadOr_of_some (ofBytes?_eq_some_iff.mpr rfl) (ofBytes?_eq_some_iff.mpr rfl)

theorem compare_timeuuid_bytes (l r : Uuid) : KeyType.timeuuid.compare l.bytes r.bytes = l.compareByTime r := by
  rw [KeyType.compare_eq_compareNonempty _ l.bytes_ne_nil r.bytes_ne_nil]
  exact compareReadOr_of_some (ofBytes?_eq_some_iff.mpr rfl) (ofBytes?_eq_some_iff.mpr rfl)

/-- Identifiers are ordered by their version, time and origin alone, since version and time take up the first eight
    bytes: the low 32 bits of the time, the middle 16, the version, and the high 12 bits of the time. The order of
    time-based ones is by time, signed origin and version, so that the comparison of all bytes at its end only tells
    versions apart. The order of any identifiers is by version, and then by time and origin in version one. So both
    orders put two identifiers of that version and of different times alike. -/
theorem orders_follow_version_and_time :
    (∀ u : Uuid, u.version < 16 ∧ u.timestamp < 2 ^ 60) ∧
    (∀ u : Uuid, Bytes.toNat (u.bytes.take 8) =
      u.timestamp % 0x100000000 * 0x100000000 + u.timestamp / 0x100000000 % 0x10000 * 0x10000 +
        u.version * 0x1000 + u.timestamp / 0x1000000000000) ∧
    (∀ u w : Uuid, u.version = w.version → u.timestamp = w.timestamp → u.bytes.take 8 = w.bytes.take 8) ∧
    (∀ l r : Uuid, KeyType.timeuuid.compare l.bytes r.bytes = (Ord.compare l.timestamp r.timestamp).then
      ((Ord.compare l.signedOrigin r.signedOrigin).then (Ord.compare l.version r.version))) ∧
    (∀ l r : Uuid, KeyType.uuid.compare l.bytes r.bytes = (Ord.compare l.version r.version).then
      (if l.version = 1 then (Ord.compare l.timestamp r.timestamp).then (Ord.compare l.origin r.origin)
        else Ord.compare l.bytes r.bytes)) ∧
    (∀ l r : Uuid, l.version = 1 → r.version = 1 → l.timestamp ≠ r.timestamp →
      KeyType.uuid.compare l.bytes r.bytes = KeyType.timeuuid.compare l.bytes r.bytes) ∧
    (∀ l r : Uuid, l.timestamp = r.timestamp → l.signedOrigin = r.signedOrigin →
      Ord.compare l.bytes r.bytes ≠ .eq → l.version ≠ r.version) := by
  refine ⟨fun u => ⟨u.version_lt, u.timestamp_lt⟩, toNat_take_eight, fun u w => take_eight_eq, ?_, ?_, ?_, ?_⟩
  · intro l r
    rw [compare_timeuuid_bytes, compareByTime_eq]
  · intro l r
    rw [compare_uuid_bytes, compare_eq_of_version]
  · intro l r hl hr htime
    have hdecides : Ord.compare l.timestamp r.timestamp ≠ .eq := mt Std.LawfulEqOrd.eq_of_compare htime
    rw [compare_uuid_bytes, compare_timeuuid_bytes, compare_eq_of_version, compareByTime_eq, hl, hr, if_pos rfl,
      Std.ReflOrd.compare_self, Ordering.eq_then]
    exact then_eq_then_of_eq fun heq => absurd heq hdecides
  · intro l r htime horigin hdecides hversion
    rw [compare_bytes_of_signedOrigin htime horigin, hversion, Std.ReflOrd.compare_self] at hdecides
    exact hdecides rfl

/-- Two times of which the later has the lower first bytes, and two versions of one time. -/
theorem orders_follow_version_and_time_of_early_and_late :
    let early : Uuid := ⟨[0xFF, 0, 0, 0, 0, 0, 0x10, 0, 0, 0, 0, 0, 0, 0, 0, 0], rfl⟩
    let late : Uuid := ⟨[0, 0, 0, 0, 0, 0, 0x11, 0, 0, 0, 0, 0, 0, 0, 0, 0], rfl⟩
    let other : Uuid := ⟨[0, 0, 0, 0, 0, 0, 0x41, 0, 0, 0, 0, 0, 0, 0, 0, 0], rfl⟩
    early.version = 1 ∧ late.version = 1 ∧ early.timestamp ≠ late.timestamp ∧
      KeyType.timeuuid.compare early.bytes late.bytes = .lt ∧ KeyType.uuid.compare early.bytes late.bytes = .lt ∧
      late.timestamp = other.timestamp ∧ late.signedOrigin = other.signedOrigin ∧
      Ord.compare late.bytes other.bytes ≠ .eq ∧ late.version ≠ other.version := by
  intro early late other
  obtain ⟨_, _, _, _, _, hagree, htie⟩ := orders_follow_version_and_time
  have hearly : early.version = 1 := by decide
  have hlate : late.version = 1 := by decide
  have htimes : early.timestamp ≠ late.timestamp := by decide +kernel
  have hbyTime : KeyType.timeuuid.compare early.bytes late.bytes = .lt := by decide +kernel
  have htime : late.timestamp = other.timestamp := by decide +kernel
  have horigin : late.signedOrigin = other.signedOrigin := by decide +kernel
  have hbytes : Ord.compare late.bytes other.bytes ≠ .eq := by decide +kernel
  exact ⟨hearly, hlate, htimes, hbyTime, (hagree early late hearly hlate htimes).trans hbyTime, htime, horigin, hbytes,
    htie late other htime horigin hbytes⟩

end Uuid

end ClusteringKeys
