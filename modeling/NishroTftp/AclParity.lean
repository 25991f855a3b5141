import NishroTftp.ConfigPush
import NishroTftp.Py.AclReload
/-
  Access control in the two engines, from one `security` section.

  The Python engine reads the section itself (`ACL.reload`): two lists, each a whitelist or a
  blacklist for the services it applies to.  The C engine is sent the entries of both lists as its
  rules, as they are (`_yaml_to_core_cfg`).  A rule of the C engine is an OBJECT; a VLAN id or an
  address is none, so `apply_acl` skips every one of them and the engine is left with no rule and
  the verdict "allow".
-/
namespace Nishro

open Nishro.CCore Nishro.Py
open Nishro.Utf8 (Text text)

/-! ## The rules the C engine is left with -/

/-- The entries of the list of an access list, `key` in the security section. -/
def listOf (yaml : Json) (key : String) : Except PyError (List Json) :=
  (sectionAt yaml "security").bind fun sec =>
  (sectionAt sec key).bind fun acl => aclEntries acl "list"

/-- An id or an address: a number or a text. -/
def isEntry : Json → Bool
  | .int _ | .str _ => true
  | _ => false

/-- VLAN ids in one list, addresses and networks in the other. -/
def PlainEntries (yaml : Json) : Prop :=
  ∀ key ∈ ["vlan_acl", "ip_acl"], ∀ xs, listOf yaml key = .ok xs → ∀ x ∈ xs, isEntry x = true

/-- The rules are entries of the list. -/
theorem aclRules_mem {acl : Json} {rs : List Json} (h : aclRules acl = .ok rs) :
    rs = [] ∨ aclEntries acl "list" = .ok rs := by
  have hentries : (dictGet acl (text "list")).bind aclRules.entries = .ok rs →
      aclEntries acl "list" = .ok rs := by
    intro he
    obtain ⟨o, ho, hrs⟩ := bind_eq_ok.1 he
    refine bind_eq_ok.2 ⟨o, ho, ?_⟩
    cases o <;> exact hrs
  obtain ⟨mode, -, hmode⟩ := bind_eq_ok.1 h
  split at hmode
  · split at hmode
    · exact .inl (Except.ok.inj hmode).symm
    · exact .inr (hentries hmode)
  · split at hmode
    · exact .inr (hentries hmode)
    · exact .inl (Except.ok.inj hmode).symm
  · exact .inl (Except.ok.inj hmode).symm

/-- `apply_acl` skips whatever is not an object. -/
theorem applyAcl_entries {xs : List Json} (h : ∀ x ∈ xs, isEntry x = true) :
    applyAcl (some (.arr (nodesOf xs))) = [] := by
  have hnone : (nodesOf xs).filterMap ruleOf = [] := by
    induction xs with
    | nil => rfl
    | cons x xs ih =>
      have hx := h x List.mem_cons_self
      cases x with
      | int n => exact ih fun y hy => h y (List.mem_cons_of_mem _ hy)
      | str s => exact ih fun y hy => h y (List.mem_cons_of_mem _ hy)
      | _ => cases hx
  rw [applyAcl, hnone, List.take_nil]

/-- **No rule arrives.**  A list of ids or addresses leaves the C engine without a rule. -/
theorem Pushed.no_rules {c cfg : Config} {yaml : Json} (h : Pushed c yaml cfg)
    (hentries : PlainEntries yaml) : cfg.acl = [] ∧ cfg.aclDefaultAllow = true := by
  obtain ⟨net, tftp, files, maxSessions, secOut, log, -, -, hsec, rfl⟩ := h.sections
  obtain ⟨sec, hsection, hout⟩ := bind_eq_ok.1 hsec
  simp only [securitySection, bind_eq_ok, map_eq_ok] at hout
  obtain ⟨vlanAcl, hvlan, ipAcl, hip, vlanRules, hvlanRules, ipRules, hipRules, heq⟩ := hout
  obtain rfl := Json.obj.inj heq
  have hplain : ∀ {key : String} {acl : Json} {rs : List Json}, key ∈ ["vlan_acl", "ip_acl"] →
      sectionAt sec key = .ok acl → aclRules acl = .ok rs → ∀ x ∈ rs, isEntry x = true := by
    intro key acl rs hkey hacl hrules x hx
    rcases aclRules_mem hrules with rfl | hlist
    · cases hx
    · have hlistOf : listOf yaml key = .ok rs := by
        simp only [listOf, bind_eq_ok]
        exact ⟨sec, hsection, acl, hacl, hlist⟩
      exact hentries key hkey rs hlistOf x hx
  have hall : ∀ x ∈ vlanRules ++ ipRules, isEntry x = true := by
    intro x hx
    rcases List.mem_append.1 hx with hx | hx
    · exact hplain (by simp) hvlan hvlanRules x hx
    · exact hplain (by simp) hip hipRules x hx
  exact ⟨applyAcl_entries hall, rfl⟩

/-! ## The two verdicts -/

/-- The VLAN of a packet as the C engine looks it up; untagged is 0. -/
def cVlan (vlan : Option (Fin 4096)) : UInt16 := UInt16.ofNat ((vlan.map (·.val)).getD 0)

/-- The VLAN of a packet as Python has it. -/
def pyVlan (vlan : Option (Fin 4096)) : Option Int := vlan.map fun v => (v.val : Int)

/-- The name of a service in the configuration. -/
def serviceName : Svc → Str
  | .arp => str "arp"
  | .icmp => str "icmp"
  | .tftp => str "tftp"

/-- The lists turn nothing away: a list that applies to the service has the packet in it when it is
    a whitelist, and has not when it is a blacklist. -/
structure Passes (acl : ACL) (service : Str) (vlan : Option Int) (ip : UInt32) : Prop where
  vlanWhite : service ∈ acl.vlanApply → acl.vlanMode = .whitelist → vlan.getD 0 ∈ acl.vlanList
  vlanBlack : service ∈ acl.vlanApply → acl.vlanMode = .blacklist → vlan.getD 0 ∉ acl.vlanList
  ipWhite : service ∈ acl.ipApply → acl.ipMode = .whitelist → ∃ net ∈ acl.ipNets, net.contains ip
  ipBlack : service ∈ acl.ipApply → acl.ipMode = .blacklist →
    ∀ net ∈ acl.ipNets, net.contains ip = false

theorem lower_serviceName (svc : Svc) : lower (serviceName svc) = serviceName svc := by
  cases svc <;> decide

/-- What `ACL.allow` decides. -/
theorem allow_iff_passes (acl : ACL) (svc : Svc) (vlan : Option Int) (ip : UInt32) :
    acl.allow (serviceName svc) vlan ip = true ↔ Passes acl (serviceName svc) vlan ip := by
  rw [ACL.allow_eq, ACL.vlanDenies, ACL.ipDenies, lower_serviceName]
  have hvlan : (! (acl.vlanApply.contains (serviceName svc) &&
      acl.vlanMode.denies (acl.vlanList.contains (vlan.getD 0)))) = true ↔
      (serviceName svc ∈ acl.vlanApply → acl.vlanMode = .whitelist → vlan.getD 0 ∈ acl.vlanList) ∧
      (serviceName svc ∈ acl.vlanApply → acl.vlanMode = .blacklist →
        vlan.getD 0 ∉ acl.vlanList) := by
    cases acl.vlanMode <;> simp [Mode.denies, imp_iff_not_or]
  have hip : (! (acl.ipApply.contains (serviceName svc) &&
      acl.ipMode.denies (acl.ipNets.any (·.contains ip)))) = true ↔
      (serviceName svc ∈ acl.ipApply → acl.ipMode = .whitelist →
        ∃ net ∈ acl.ipNets, net.contains ip) ∧
      (serviceName svc ∈ acl.ipApply → acl.ipMode = .blacklist →
        ∀ net ∈ acl.ipNets, net.contains ip = false) := by
    cases acl.ipMode <;> simp [Mode.denies, imp_iff_not_or]
  rw [Bool.and_eq_true, hvlan, hip]
  constructor
  · rintro ⟨⟨h1, h2⟩, h3, h4⟩
    exact ⟨h1, h2, h3, h4⟩
  · rintro ⟨h1, h2, h3, h4⟩
    exact ⟨⟨h1, h2⟩, h3, h4⟩

/-- **Access control in the two engines.**  The verdicts on a packet agree exactly when neither
    list of the configuration turns the packet away: the C engine lets everything through. -/
theorem acl_verdicts_agree_iff {c cfg : Config} {yaml : Json} (hpush : Pushed c yaml cfg)
    (hentries : PlainEntries yaml) {acl : ACL} (_hacl : reloadAcl yaml = .ok acl) (svc : Svc)
    (vlan : Option (Fin 4096)) (ip : UInt32) :
    (aclAllowed cfg (cVlan vlan) ip svc = true ↔
      acl.allow (serviceName svc) (pyVlan vlan) ip = true) ↔
      Passes acl (serviceName svc) (pyVlan vlan) ip := by
  obtain ⟨hrules, hdefault⟩ := hpush.no_rules hentries
  have hc : aclAllowed cfg (cVlan vlan) ip svc = true := by
    rw [aclAllowed, hrules, List.find?_nil]
    exact hdefault
  rw [← allow_iff_passes]
  exact ⟨fun h => h.1 hc, fun h => iff_of_true hc h⟩

/-- VLAN 20 is blacklisted for TFTP, and nothing else is said. -/
def vlan20Blacklist : Json :=
  .obj [(text "security", .obj [(text "vlan_acl", .obj [(text "mode", .str (text "blacklist")),
    (text "list", .arr [.int 20]), (text "apply_to", .arr [.str (text "tftp")])])])]

/-- What Python makes of it. -/
def vlan20Acl : ACL := ⟨.blacklist, [20], [str "tftp"], .disabled, [], []⟩

theorem plainEntries_vlan20 : PlainEntries vlan20Blacklist := by
  intro key hkey xs hxs x hx
  simp only [List.mem_cons, List.not_mem_nil, or_false] at hkey
  rcases hkey with rfl | rfl
  · obtain rfl : [Json.int 20] = xs := Except.ok.inj hxs
    rw [List.mem_singleton.1 hx]
    rfl
  · obtain rfl : [] = xs := Except.ok.inj hxs
    cases hx

theorem pushed_vlan20 : ∃ cfg, Pushed configDefaults vlan20Blacklist cfg := by
  refine ⟨_, pushed_of_finite configDefaults ?_ rfl⟩
  simp [vlan20Blacklist, Json.Finite, Json.FiniteMembers, Json.FiniteMember, Json.FiniteElements]

/-- On VLAN 10 the engines agree. -/
theorem vlan10_verdicts_agree :
    ∃ cfg, Pushed configDefaults vlan20Blacklist cfg ∧ reloadAcl vlan20Blacklist = .ok vlan20Acl ∧
      (aclAllowed cfg (cVlan (some 10)) 0x0A000001 .tftp = true ↔
        vlan20Acl.allow (serviceName .tftp) (pyVlan (some 10)) 0x0A000001 = true) := by
  obtain ⟨cfg, hpush⟩ := pushed_vlan20
  have hpasses : Passes vlan20Acl (serviceName .tftp) (pyVlan (some 10)) 0x0A000001 :=
    (allow_iff_passes ..).1 (by decide)
  exact ⟨cfg, hpush, rfl,
    (acl_verdicts_agree_iff hpush plainEntries_vlan20 rfl .tftp (some 10) _).2 hpasses⟩

/-- A request from the blacklisted VLAN: Python turns it away, the C engine does not. -/
theorem vlan20_let_through :
    ∃ cfg, Pushed configDefaults vlan20Blacklist cfg ∧ reloadAcl vlan20Blacklist = .ok vlan20Acl ∧
      aclAllowed cfg (cVlan (some 20)) 0x0A000001 .tftp = true ∧
      vlan20Acl.allow (serviceName .tftp) (pyVlan (some 20)) 0x0A000001 = false := by
  obtain ⟨cfg, hpush⟩ := pushed_vlan20
  obtain ⟨hrules, hdefault⟩ := hpush.no_rules plainEntries_vlan20
  refine ⟨cfg, hpush, rfl, ?_, by decide⟩
  rw [aclAllowed, hrules, List.find?_nil]
  exact hdefault

end Nishro
