import NishroTftp.Py.Acl
import NishroTftp.Py.CoreCfg
/-
  `ACL.reload` on the configuration as it is (`core/acl.py`), with the object it leaves behind when it
  raises.

  Six attributes are assigned one after another, and the conversions stand between the assignments.
  `int`, `str`, `lower` and `ipaddress` are Python's (`AclOps`): any functions here.  A set is the list
  of its elements.

  `reload` assigns `vlan_mode` as soon as it has found the VLAN section.  Whatever raises after that
  leaves the NEW mode over the OLD list, so the update is atomic exactly for the configurations in
  which nothing after that raises.
-/
namespace Nishro.Py

open Utf8 (Text text)

/-- The part of the standard library. -/
structure AclOps (ν α : Type) where
  int : Json → Except PyError Int
  str : Json → Text
  lower : Text → Text
  /-- `ip_network(s, strict=False)`; `none` is a `ValueError` -/
  ipNetwork : Text → Option ν
  /-- `ip_address(s)`; `none` is a `ValueError` -/
  ipAddress : Text → Option α
  contains : ν → α → Bool

/-- The attributes of an `ACL`. -/
structure AclState (ν : Type) where
  vlanMode : Text
  vlanList : List Int
  vlanApply : List Text
  ipMode : Text
  ipNets : List ν
  ipApply : List Text
deriving DecidableEq

variable {ν α : Type} (ops : AclOps ν α)

/-! ## The conversions -/

/-- `str(d.get("mode", "disabled")).lower()`. -/
def modeAt (d : Json) : Except PyError Text :=
  (rawAt d "mode" "disabled").map fun x => ops.lower (ops.str x)

/-- `acl.get(key) or []`, gone through. -/
def aclEntries (acl : Json) (key : String) : Except PyError (List Json) :=
  (dictGet acl (text key)).bind fun
    | none => .ok []
    | some x => if truthy x then iterate x else .ok []

/-- `{int(v) for v in (d.get("list") or [])}`. -/
def vlanIds (d : Json) : Except PyError (List Int) := (aclEntries d "list").bind (·.mapM ops.int)

/-- `{str(s).lower() for s in (d.get("apply_to") or [])}`. -/
def applyAt (d : Json) : Except PyError (List Text) :=
  (aclEntries d "apply_to").map (·.map fun x => ops.lower (ops.str x))

/-- The networks of a list; what is none is logged and left out. -/
def networks (items : List Json) : List ν := items.filterMap fun x => ops.ipNetwork (ops.str x)

/-! ## `reload` and `check` -/

/-- Go on with a value, or stop with the object as it is. -/
def attempt {β : Type} (acl : AclState ν) (x : Except PyError β)
    (next : β → AclState ν × Except PyError Unit) : AclState ν × Except PyError Unit :=
  match x with
  | .ok b => next b
  | .error e => (acl, .error e)

/-- The assignments of `reload`, from its two sections. -/
def AclState.assign (acl : AclState ν) (vlan ip : Json) : AclState ν × Except PyError Unit :=
  attempt acl (modeAt ops vlan) fun vlanMode =>
  let acl := { acl with vlanMode }
  attempt acl (vlanIds ops vlan) fun vlanList =>
  let acl := { acl with vlanList }
  attempt acl (applyAt ops vlan) fun vlanApply =>
  let acl := { acl with vlanApply }
  attempt acl (modeAt ops ip) fun ipMode =>
  let acl := { acl with ipMode, ipNets := [] }
  attempt acl (aclEntries ip "list") fun items =>
  let acl := { acl with ipNets := networks ops items }
  attempt acl (applyAt ops ip) fun ipApply =>
  ({ acl with ipApply }, .ok ())

/-- `ACL.reload`. -/
def AclState.reload (acl : AclState ν) (cfg : Json) : AclState ν × Except PyError Unit :=
  attempt acl (sectionAt cfg "security") fun sec =>
  attempt acl (sectionAt sec "vlan_acl") fun vlan =>
  attempt acl (sectionAt sec "ip_acl") fun ip =>
  acl.assign ops vlan ip

/-- `ACL.check`; no address, or an empty one, is not looked at. -/
def AclState.check (acl : AclState ν) (service : Text) (vlan : Option Int) (src : Option Text) :
    Option Denial :=
  let denies (mode : Text) (inList : Bool) : Bool :=
    mode = text "whitelist" ∧ inList = false ∨ mode = text "blacklist" ∧ inList = true
  if ops.lower service ∈ acl.vlanApply ∧ acl.vlanMode ≠ text "disabled" ∧
      denies acl.vlanMode (acl.vlanList.contains (vlan.getD 0)) then some .vlan
  else if ops.lower service ∈ acl.ipApply ∧ acl.ipMode ≠ text "disabled" ∧ src.getD [] ≠ [] then
    match ops.ipAddress (src.getD []) with
    | none => some .ip
    | some addr => if denies acl.ipMode (acl.ipNets.any (ops.contains · addr)) then some .ip else none
  else none

/-! ## What a reload is to be -/

/-- The six attributes of two sections. -/
def AclState.ofSections (vlan ip : Json) : Except PyError (AclState ν) :=
  (modeAt ops vlan).bind fun vlanMode =>
  (vlanIds ops vlan).bind fun vlanList =>
  (applyAt ops vlan).bind fun vlanApply =>
  (modeAt ops ip).bind fun ipMode =>
  (aclEntries ip "list").bind fun items =>
  (applyAt ops ip).map fun ipApply =>
    ⟨vlanMode, vlanList, vlanApply, ipMode, networks ops items, ipApply⟩

/-- The six attributes of a configuration. -/
def AclState.ofConfig (cfg : Json) : Except PyError (AclState ν) :=
  (sectionAt cfg "security").bind fun sec =>
  (sectionAt sec "vlan_acl").bind fun vlan =>
  (sectionAt sec "ip_acl").bind fun ip =>
  AclState.ofSections ops vlan ip

/-- All or nothing: a reload that raises leaves the six attributes, and with them every verdict, as
    they were; one that succeeds takes all six from the configuration. -/
def AclState.Atomic (cfg : Json) (acl : AclState ν) : Prop :=
  match acl.reload ops cfg with
  | (acl', .error _) => acl' = acl ∧
      ∀ service vlan src, acl'.check ops service vlan src = acl.check ops service vlan src
  | (acl', .ok ()) => AclState.ofConfig ops cfg = .ok acl'

def secOf (cfg : Json) : Json := orEmpty (cfg.get (text "security"))
def vlanOf (cfg : Json) : Json := orEmpty ((secOf cfg).get (text "vlan_acl"))
def ipOf (cfg : Json) : Json := orEmpty ((secOf cfg).get (text "ip_acl"))

def IsDict (d : Json) : Prop := ∃ ms, d = .obj ms

/-- `reload` comes to its first assignment. -/
structure Reaches (cfg : Json) : Prop where
  root : IsDict cfg
  sec : IsDict (secOf cfg)
  vlan : IsDict (vlanOf cfg)

/-- What the key holds can be gone through, if it is anything at all. -/
def Listed (d : Json) (key : String) : Prop :=
  ∀ x, d.get (text key) = some x → truthy x = true → ∃ xs, iterate x = .ok xs

/-- Nothing after the first assignment raises. -/
structure Converts (cfg : Json) : Prop where
  vlanList : Listed (vlanOf cfg) "list"
  vlanIds : ∀ x xs, (vlanOf cfg).get (text "list") = some x → truthy x = true → iterate x = .ok xs →
    ∀ v ∈ xs, ∃ n, ops.int v = .ok n
  vlanApply : Listed (vlanOf cfg) "apply_to"
  ip : IsDict (ipOf cfg)
  ipList : Listed (ipOf cfg) "list"
  ipApply : Listed (ipOf cfg) "apply_to"

/-! ## When the conversions raise -/

section Conversions

variable {d : Json} {key : String}

theorem dictGet_error (h : ¬ IsDict d) (k : Text) : dictGet d k = .error .attributeError := by
  cases d with
  | obj ms => exact absurd ⟨ms, rfl⟩ h
  | _ => rfl

theorem dictGet_eq (h : IsDict d) (k : Text) : dictGet d k = .ok (d.get k) := by
  obtain ⟨ms, rfl⟩ := h
  rfl

theorem sectionAt_eq (h : IsDict d) : sectionAt d key = .ok (orEmpty (d.get (text key))) := by
  rw [sectionAt, dictGet_eq h]
  rfl

theorem sectionAt_error (h : ¬ IsDict d) : sectionAt d key = .error .attributeError := by
  rw [sectionAt, dictGet_error h]
  rfl

theorem modeAt_ok_iff : (∃ m, modeAt ops d = .ok m) ↔ IsDict d := by
  unfold modeAt rawAt
  by_cases h : IsDict d
  · rw [dictGet_eq h]
    exact iff_of_true ⟨_, rfl⟩ h
  · rw [dictGet_error h]
    exact iff_of_false (fun ⟨_, hm⟩ => nomatch hm) h

/-- The elements, where there are some to go through. -/
theorem aclEntries_eq (h : IsDict d) (xs : List Json) : aclEntries d key = .ok xs ↔
    (∃ x, d.get (text key) = some x ∧ truthy x = true ∧ iterate x = .ok xs) ∨
      xs = [] ∧ ∀ x, d.get (text key) = some x → truthy x = false := by
  rw [aclEntries, dictGet_eq h, Except.bind]
  cases d.get (text key) with
  | none =>
    constructor
    · exact fun hxs => .inr ⟨(Except.ok.inj hxs).symm, fun _ hx => nomatch hx⟩
    · rintro (⟨x, hx, -⟩ | ⟨rfl, -⟩)
      · cases hx
      · rfl
  | some x =>
    cases ht : truthy x with
    | true =>
      simp only [ht, if_true]
      constructor
      · exact fun hxs => .inl ⟨x, rfl, ht, hxs⟩
      · rintro (⟨y, hy, -, hxs⟩ | ⟨-, hfalse⟩)
        · rwa [Option.some.inj hy]
        · exact nomatch ht.symm.trans (hfalse x rfl)
    | false =>
      simp only [ht, Bool.false_eq_true, if_false]
      constructor
      · refine fun hxs => .inr ⟨(Except.ok.inj hxs).symm, fun y hy => ?_⟩
        rwa [← Option.some.inj hy]
      · rintro (⟨y, hy, hyt, -⟩ | ⟨rfl, -⟩)
        · rw [← Option.some.inj hy, ht] at hyt
          cases hyt
        · rfl

theorem aclEntries_ok_iff : (∃ xs, aclEntries d key = .ok xs) ↔ IsDict d ∧ Listed d key := by
  by_cases h : IsDict d
  · simp only [aclEntries_eq h, h, true_and]
    constructor
    · rintro ⟨xs, ⟨x, hx, -, hit⟩ | ⟨-, hfalse⟩⟩ y hy ht
      · obtain rfl : x = y := Option.some.inj (hx.symm.trans hy)
        exact ⟨xs, hit⟩
      · exact nomatch ht.symm.trans (hfalse y hy)
    · intro hl
      by_cases hex : ∃ x, d.get (text key) = some x ∧ truthy x = true
      · obtain ⟨x, hx, ht⟩ := hex
        obtain ⟨xs, hxs⟩ := hl x hx ht
        exact ⟨xs, .inl ⟨x, hx, ht, hxs⟩⟩
      · refine ⟨[], .inr ⟨rfl, fun x hx => ?_⟩⟩
        exact Bool.eq_false_iff.2 fun ht => hex ⟨x, hx, ht⟩
  · rw [aclEntries, dictGet_error h]
    exact iff_of_false (fun ⟨_, hm⟩ => nomatch hm) fun hd => h hd.1

theorem mapM_ok_iff {β γ : Type} (f : β → Except PyError γ) (xs : List β) :
    (∃ ys, xs.mapM f = .ok ys) ↔ ∀ x ∈ xs, ∃ y, f x = .ok y := by
  induction xs with
  | nil => exact iff_of_true ⟨[], rfl⟩ fun _ h => nomatch h
  | cons x xs ih =>
    rw [List.forall_mem_cons, ← ih, List.mapM_cons]
    cases f x with
    | error e => exact iff_of_false (fun ⟨_, h⟩ => nomatch h) fun ⟨⟨_, h⟩, _⟩ => nomatch h
    | ok y =>
      cases xs.mapM f with
      | error e => exact iff_of_false (fun ⟨_, h⟩ => nomatch h) fun ⟨_, _, h⟩ => nomatch h
      | ok ys => exact iff_of_true ⟨y :: ys, rfl⟩ ⟨⟨y, rfl⟩, ys, rfl⟩

theorem vlanIds_ok_iff : (∃ ids, vlanIds ops d = .ok ids) ↔ IsDict d ∧ Listed d "list" ∧
    ∀ x xs, d.get (text "list") = some x → truthy x = true → iterate x = .ok xs →
      ∀ v ∈ xs, ∃ n, ops.int v = .ok n := by
  unfold vlanIds
  rw [← and_assoc, ← aclEntries_ok_iff]
  cases hl : aclEntries d "list" with
  | error e => exact iff_of_false (fun ⟨_, h⟩ => nomatch h) fun ⟨⟨_, h⟩, _⟩ => nomatch h
  | ok xs =>
    have hd : IsDict d := (aclEntries_ok_iff.1 ⟨xs, hl⟩).1
    rw [Except.bind, mapM_ok_iff]
    refine Iff.trans ?_ (and_iff_right ⟨xs, rfl⟩).symm
    rcases (aclEntries_eq hd xs).1 hl with ⟨x, hx, ht, hit⟩ | ⟨rfl, hfalse⟩
    · constructor
      · intro h y ys hy _ hys
        obtain rfl : x = y := Option.some.inj (hx.symm.trans hy)
        obtain rfl : xs = ys := Except.ok.inj (hit.symm.trans hys)
        exact h
      · exact fun h => h x xs hx ht hit
    · exact iff_of_true (fun _ h => nomatch h)
        fun y _ hy ht => nomatch ht.symm.trans (hfalse y hy)

theorem applyAt_ok_iff : (∃ l, applyAt ops d = .ok l) ↔ IsDict d ∧ Listed d "apply_to" := by
  rw [← aclEntries_ok_iff, applyAt]
  cases aclEntries d "apply_to" with
  | error e => exact iff_of_false (fun ⟨_, h⟩ => nomatch h) fun ⟨_, h⟩ => nomatch h
  | ok xs => exact iff_of_true ⟨_, rfl⟩ ⟨xs, rfl⟩

end Conversions

/-! ## When a reload is atomic -/

section Reload

variable {cfg : Json} (hroot : IsDict cfg) (hsec : IsDict (secOf cfg))
include hroot hsec

theorem reload_eq (acl : AclState ν) : acl.reload ops cfg = acl.assign ops (vlanOf cfg) (ipOf cfg) := by
  unfold AclState.reload
  rw [sectionAt_eq hroot]
  show attempt acl (sectionAt (secOf cfg) "vlan_acl") (fun vlan =>
    attempt acl (sectionAt (secOf cfg) "ip_acl") fun ip => acl.assign ops vlan ip) = _
  rw [sectionAt_eq hsec, sectionAt_eq hsec]
  rfl

theorem ofConfig_eq :
    AclState.ofConfig ops cfg = AclState.ofSections ops (vlanOf cfg) (ipOf cfg) := by
  unfold AclState.ofConfig
  rw [sectionAt_eq hroot]
  show (sectionAt (secOf cfg) "vlan_acl").bind (fun vlan =>
    (sectionAt (secOf cfg) "ip_acl").bind fun ip => AclState.ofSections ops vlan ip) = _
  rw [sectionAt_eq hsec, sectionAt_eq hsec]
  rfl

end Reload

/-- Before the first assignment nothing has happened. -/
theorem reload_unreached {cfg : Json} (h : ¬ Reaches cfg) (acl : AclState ν) :
    ∃ e, acl.reload ops cfg = (acl, .error e) := by
  by_cases hroot : IsDict cfg
  · by_cases hsec : IsDict (secOf cfg)
    · rw [reload_eq ops hroot hsec, AclState.assign]
      cases hm : modeAt ops (vlanOf cfg) with
      | error e => exact ⟨e, rfl⟩
      | ok m => exact absurd ⟨hroot, hsec, (modeAt_ok_iff ops).1 ⟨m, hm⟩⟩ h
    · refine ⟨.attributeError, ?_⟩
      rw [AclState.reload, sectionAt_eq hroot]
      show attempt acl (sectionAt (secOf cfg) "vlan_acl") _ = _
      rw [sectionAt_error hsec]
      rfl
  · rw [AclState.reload, sectionAt_error hroot]
    exact ⟨_, rfl⟩

/-- The conversions that stand between the first assignment and the last. -/
structure SectionsConvert (vlan ip : Json) : Prop where
  vlanList : ∃ ids, vlanIds ops vlan = .ok ids
  vlanApply : ∃ services, applyAt ops vlan = .ok services
  ipMode : ∃ mode, modeAt ops ip = .ok mode
  ipList : ∃ items, aclEntries ip "list" = .ok items
  ipApply : ∃ services, applyAt ops ip = .ok services

theorem converts_iff {cfg : Json} (hvlan : IsDict (vlanOf cfg)) :
    Converts ops cfg ↔ SectionsConvert ops (vlanOf cfg) (ipOf cfg) := by
  constructor
  · exact fun h => ⟨(vlanIds_ok_iff ops).2 ⟨hvlan, h.vlanList, h.vlanIds⟩,
      (applyAt_ok_iff ops).2 ⟨hvlan, h.vlanApply⟩, (modeAt_ok_iff ops).2 h.ip,
      aclEntries_ok_iff.2 ⟨h.ip, h.ipList⟩, (applyAt_ok_iff ops).2 ⟨h.ip, h.ipApply⟩⟩
  · intro h
    have hids := (vlanIds_ok_iff ops).1 h.vlanList
    exact ⟨hids.2.1, hids.2.2, ((applyAt_ok_iff ops).1 h.vlanApply).2,
      (modeAt_ok_iff ops).1 h.ipMode, (aclEntries_ok_iff.1 h.ipList).2,
      ((applyAt_ok_iff ops).1 h.ipApply).2⟩

/-- The six assignments all go through, or a conversion after the first of them raises and the new
    mode is there. -/
theorem assign_cases {vlan : Json} {mode : Text} (hmode : modeAt ops vlan = .ok mode) (ip : Json)
    (acl : AclState ν) :
    (SectionsConvert ops vlan ip ∧ ∃ acl', AclState.ofSections ops vlan ip = .ok acl' ∧
      acl.assign ops vlan ip = (acl', .ok ())) ∨
    (¬ SectionsConvert ops vlan ip ∧ ∃ acl' e, acl'.vlanMode = mode ∧
      acl.assign ops vlan ip = (acl', .error e)) := by
  unfold AclState.assign AclState.ofSections
  rw [hmode]
  cases hids : vlanIds ops vlan with
  | error e => exact .inr ⟨fun h => by simpa [hids] using h.vlanList, _, e, rfl, rfl⟩
  | ok ids =>
    cases hva : applyAt ops vlan with
    | error e => exact .inr ⟨fun h => by simpa [hva] using h.vlanApply, _, e, rfl, rfl⟩
    | ok vlanApply =>
      cases him : modeAt ops ip with
      | error e => exact .inr ⟨fun h => by simpa [him] using h.ipMode, _, e, rfl, rfl⟩
      | ok ipMode =>
        cases hil : aclEntries ip "list" with
        | error e => exact .inr ⟨fun h => by simpa [hil] using h.ipList, _, e, rfl, rfl⟩
        | ok items =>
          cases hia : applyAt ops ip with
          | error e => exact .inr ⟨fun h => by simpa [hia] using h.ipApply, _, e, rfl, rfl⟩
          | ok ipApply =>
            exact .inl ⟨⟨⟨_, hids⟩, ⟨_, hva⟩, ⟨_, him⟩, ⟨_, hil⟩, ⟨_, hia⟩⟩, _, rfl, rfl⟩

/-- After it, the new mode is there for good. -/
theorem reload_reached {cfg : Json} (h : Reaches cfg) :
    ∃ mode, ∀ acl : AclState ν,
      (Converts ops cfg ∧ ∃ acl', AclState.ofConfig ops cfg = .ok acl' ∧
        acl.reload ops cfg = (acl', .ok ())) ∨
      (¬ Converts ops cfg ∧ ∃ acl' e, acl'.vlanMode = mode ∧
        acl.reload ops cfg = (acl', .error e)) := by
  obtain ⟨mode, hmode⟩ := (modeAt_ok_iff ops).2 h.vlan
  refine ⟨mode, fun acl => ?_⟩
  rw [reload_eq ops h.root h.sec, ofConfig_eq ops h.root h.sec, converts_iff ops h.vlan]
  exact assign_cases ops hmode (ipOf cfg) acl

/-- **A reload is all or nothing**, whatever was there before, exactly if nothing raises once the VLAN
    section has been found. -/
theorem reload_atomic_iff (cfg : Json) :
    (∀ acl : AclState ν, acl.Atomic ops cfg) ↔ (Reaches cfg → Converts ops cfg) := by
  by_cases h : Reaches cfg
  · obtain ⟨mode, hmode⟩ := reload_reached ops h
    constructor
    · intro hatomic _
      -- an object with another mode than the one that comes
      let old : AclState ν := ⟨mode ++ [0], [], [], [], [], []⟩
      rcases hmode old with ⟨hc, -⟩ | ⟨-, acl', e, hnew, heq⟩
      · exact hc
      · have hold := hatomic old
        rw [AclState.Atomic, heq] at hold
        have hlen := congrArg (fun a : AclState ν => a.vlanMode.length) hold.1
        simp [hnew, old] at hlen
    · intro hc acl
      rcases hmode acl with ⟨-, acl', hcfg, heq⟩ | ⟨hno, -⟩
      · rw [AclState.Atomic, heq]
        exact hcfg
      · exact absurd (hc h) hno
  · refine iff_of_true (fun acl => ?_) fun hr => absurd hr h
    obtain ⟨e, heq⟩ := reload_unreached ops h acl
    rw [AclState.Atomic, heq]
    exact ⟨rfl, fun _ _ _ => rfl⟩

/-! ## `ACL.reload` where it succeeds

  For the packets only what a successful reload has read matters: `reloadAcl`, with the modes by their
  names and the networks IPv4's. -/

/-- The characters of a text. -/
def chars (s : Text) : Str := s.map Char.ofNat

/-- `str(acl.get("mode", "disabled")).lower()`. -/
def aclMode (acl : Json) : Except PyError Mode :=
  (dictGet acl (text "mode")).map fun
    | none => .disabled
    | some v => .ofStr (chars (pyStr v))

/-- `{int(v) for v in ...}`. -/
def intEntries : List Json → Except PyError (List Int)
  | [] => .ok []
  | v :: vs => (toInt v).bind fun n => (intEntries vs).map (n :: ·)

/-- `ACL.reload`. -/
def reloadAcl (cfg : Json) : Except PyError ACL :=
  (sectionAt cfg "security").bind fun sec =>
  (sectionAt sec "vlan_acl").bind fun vlan =>
  (sectionAt sec "ip_acl").bind fun ip =>
  (aclMode vlan).bind fun vlanMode =>
  (aclEntries vlan "list").bind fun vlans =>
  (intEntries vlans).bind fun vlanList =>
  (aclEntries vlan "apply_to").bind fun vlanApply =>
  (aclMode ip).bind fun ipMode =>
  (aclEntries ip "list").bind fun nets =>
  (aclEntries ip "apply_to").map fun ipApply =>
    { vlanMode, vlanList
      vlanApply := vlanApply.map fun s => lower (chars (pyStr s))
      ipMode
      ipNets := nets.filterMap fun s => parseNet (chars (pyStr s))
      ipApply := ipApply.map fun s => lower (chars (pyStr s)) }

/-- Python's functions, for ASCII and IPv4. -/
def pyOps : AclOps Net UInt32 where
  int := toInt
  str := pyStr
  lower := fun s => (lower (chars s)).map Char.toNat
  ipNetwork := fun s => parseNet (chars s)
  ipAddress := fun s => parseIpv4Addr (chars s)
  contains := Net.contains

def AclState.typed (acl : AclState Net) : ACL where
  vlanMode := .ofStr (chars acl.vlanMode)
  vlanList := acl.vlanList
  vlanApply := acl.vlanApply.map chars
  ipMode := .ofStr (chars acl.ipMode)
  ipNets := acl.ipNets
  ipApply := acl.ipApply.map chars

@[simp] theorem chars_map_toNat (s : Str) : chars (s.map Char.toNat) = s := by
  rw [chars, List.map_map]
  exact (List.map_congr_left fun c _ => Char.ofNat_toNat c).trans (List.map_id s)

theorem intEntries_eq (xs : List Json) : intEntries xs = xs.mapM toInt := by
  induction xs with
  | nil => rfl
  | cons x xs ih =>
    rw [intEntries, ih, List.mapM_cons]
    cases toInt x with
    | error e => rfl
    | ok n => cases xs.mapM toInt <;> rfl

theorem toLower_toLower (c : Char) : c.toLower.toLower = c.toLower := by
  unfold Char.toLower
  split
  · rename_i h
    refine dif_neg fun h' => ?_
    simp only [UInt32.le_iff_toNat_le, ge_iff_le, UInt32.toNat_add] at h h'
    have h90 : 'Z'.val.toNat = 90 := rfl
    have h65 : 'A'.val.toNat = 65 := rfl
    have h32 : ('a'.val - 'A'.val).toNat = 32 := rfl
    omega
  · rfl

/-- The mode is lowered when it is read; lowering it again does nothing. -/
theorem ofStr_lower (s : Str) : Mode.ofStr (lower s) = Mode.ofStr s := by
  have hlower : lower (lower s) = lower s := by
    rw [lower, lower, List.map_map]
    exact List.map_congr_left fun c _ => toLower_toLower c
  rw [Mode.ofStr, hlower, Mode.ofStr]

theorem typed_mode (d : Json) :
    (modeAt pyOps d).map (fun m => Mode.ofStr (chars m)) = aclMode d := by
  have hmode : ∀ x, Mode.ofStr (chars (pyOps.lower (pyOps.str x))) = Mode.ofStr (chars (pyStr x)) :=
    fun x => by rw [← ofStr_lower (chars (pyStr x)), ← chars_map_toNat (lower _)]; rfl
  unfold modeAt rawAt aclMode
  cases dictGet d (text "mode") with
  | error e => rfl
  | ok o =>
    cases o with
    | none => exact congrArg Except.ok (by decide)
    | some x => exact congrArg Except.ok (hmode x)

theorem typed_names (xs : List Json) :
    (xs.map fun x => pyOps.lower (pyOps.str x)).map chars = xs.map fun s => lower (chars (pyStr s)) := by
  rw [List.map_map]
  exact List.map_congr_left fun x _ => chars_map_toNat _

/-- **A successful reload** leaves what `reloadAcl` reads, and they raise alike. -/
theorem ofConfig_typed (cfg : Json) :
    (AclState.ofConfig pyOps cfg).map AclState.typed = reloadAcl cfg := by
  unfold AclState.ofConfig AclState.ofSections reloadAcl vlanIds applyAt
  simp only [← typed_mode, intEntries_eq, except_map_bind, except_bind_map, except_map_map,
    except_bind_bind, AclState.typed, typed_names]
  rfl

/-! ## A reload that is not -/

/-- VLAN 100 is turned away, everything else is let in. -/
def blacklist100 : AclState Net := ⟨text "blacklist", [100], [text "tftp"], text "disabled", [], []⟩

/-- A whitelist with an entry that is no number. -/
def mistypedList : Json := .obj [(text "security", .obj [(text "vlan_acl", .obj
  [(text "mode", .str (text "whitelist")), (text "list", .arr [.str (text "x")]),
    (text "apply_to", .arr [.str (text "tftp")])])])]

/-- `int("x")` raises, and the OLD list has become a whitelist: VLAN 100, turned away before, is let
    in, and VLAN 200 is turned away. -/
theorem mistyped_list_halfway :
    blacklist100.reload pyOps mistypedList =
        (⟨text "whitelist", [100], [text "tftp"], text "disabled", [], []⟩, .error .valueError) ∧
      (blacklist100.check pyOps (text "tftp") (some 100) none = some .vlan ∧
        blacklist100.check pyOps (text "tftp") (some 200) none = none) ∧
      ((blacklist100.reload pyOps mistypedList).1.check pyOps (text "tftp") (some 100) none = none ∧
        (blacklist100.reload pyOps mistypedList).1.check pyOps (text "tftp") (some 200) none =
          some .vlan) ∧
      ¬ blacklist100.Atomic pyOps mistypedList := by
  have hreload : blacklist100.reload pyOps mistypedList =
      (⟨text "whitelist", [100], [text "tftp"], text "disabled", [], []⟩, .error .valueError) := by
    rfl
  refine ⟨hreload, by decide, by decide, fun h => ?_⟩
  exact absurd (congrArg AclState.vlanMode h.1) (by decide)

end Nishro.Py
