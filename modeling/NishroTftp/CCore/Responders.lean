import NishroTftp.CCore.Main
import NishroTftp.Lib.Runs
/-
  What the C engine counts of its ARP and ICMP responders (`on_pkt` in `c_core/main.c`), against what
  they send.

  `arp_handle` and `icmp_handle` return 1 for every request to the virtual IP, answered or not, and
  `on_pkt` takes that 1 for a reply: what it counts as replies is the requests, the REFUSED ones
  included.
-/
namespace Nishro.CCore

open Runs

/-- Does the frame ask the virtual IP for this service? -/
def asks (cfg : Config) (v : PktView) : Svc → Bool
  | .arp => v.isArp && v.arpOper == 1 && v.arpTpa == cfg.virtualIp
  | .icmp => v.isIcmp && v.icmpType == 8 && v.dstIp == cfg.virtualIp
  | .tftp => false

/-- A request without an answer: its sender is turned away, or the echo does not fit a frame. -/
def refuses (cfg : Config) (v : PktView) (svc : Svc) : Bool :=
  asks cfg v svc && match svc with
    | .icmp => ! aclAllowed cfg v.aclVlan v.srcIp .icmp ||
        decide (v.icmpHdr.length < 8 ∨ 2010 < v.icmpHdr.length)
    | _ => ! aclAllowed cfg v.aclVlan v.arpSpa .arp

/-- Is it an answer of this responder? -/
def Sent.answers : Sent → Svc → Bool
  | .arp _, .arp => true
  | .echo _, .icmp => true
  | _, _ => false

def Runtime.requests (rt : Runtime) : Svc → UInt64
  | .arp => rt.arpRequests
  | .icmp => rt.icmpRequests
  | .tftp => 0

def Runtime.replies (rt : Runtime) : Svc → UInt64
  | .arp => rt.arpReplies
  | .icmp => rt.icmpReplies
  | .tftp => 0

theorem pktParse_not_both {buf : Bytes} {v : PktView} (h : pktParse buf = some v) :
    v.isArp = false ∨ v.isIcmp = false := by
  grind [pktParse, parseL3, parseArp, parseIpv4, parseL4]

theorem arpHandle_spec (cfg : Config) (v : PktView) :
    (arpHandle cfg v).1 = asks cfg v .arp ∧
      (arpHandle cfg v).2.isSome = (asks cfg v .arp && ! refuses cfg v .arp) := by
  unfold arpHandle refuses asks
  grind

theorem icmpHandle_spec (cfg : Config) (v : PktView) :
    (icmpHandle cfg v).1 = asks cfg v .icmp ∧
      (icmpHandle cfg v).2.isSome = (asks cfg v .icmp && ! refuses cfg v .icmp) := by
  unfold icmpHandle buildIcmpEchoReply refuses asks
  grind

theorem countRequests_counts (v : PktView) (rt : Runtime) (svc : Svc) :
    (countRequests v rt).requests svc =
        rt.requests svc + (if asks rt.sess.cfg v svc then 1 else 0) ∧
      (countRequests v rt).replies svc = rt.replies svc := by
  cases svc <;> grind [countRequests, asks, Runtime.requests, Runtime.replies]

/-- Does the frame bring a request that is refused? -/
def turnedAway (cfg : Config) (pkt : Bytes) (svc : Svc) : Bool :=
  (pktParse pkt).any fun v => v.srcMac != cfg.virtualMac && refuses cfg v svc

/-- A frame is counted as a request and as a reply alike, and it is answered or turned away. -/
theorem onPkt_counts (rt : Runtime) (now : Clock) (env : Env) (pkt : Bytes) (svc : Svc) :
    ∃ n : UInt64, (onPkt rt now env pkt).1.requests svc = rt.requests svc + n ∧
      (onPkt rt now env pkt).1.replies svc = rt.replies svc + n ∧
      n = UInt64.ofNat ((onPkt rt now env pkt).2.countP (·.answers svc)) +
        (if turnedAway rt.sess.cfg pkt svc then 1 else 0) := by
  unfold onPkt turnedAway
  cases hv : pktParse pkt with
  | none => exact ⟨0, by simp⟩
  | some v =>
    by_cases hmac : v.srcMac = rt.sess.cfg.virtualMac
    · exact ⟨0, by simp [hmac]⟩
    obtain ⟨hreq, hrep⟩ := countRequests_counts v rt svc
    obtain ⟨ha, ha'⟩ := arpHandle_spec rt.sess.cfg v
    obtain ⟨he, he'⟩ := icmpHandle_spec rt.sess.cfg v
    have hboth := pktParse_not_both hv
    refine ⟨if asks rt.sess.cfg v svc then 1 else 0, ?_⟩
    simp only [if_neg hmac, ha, he]
    by_cases harp : asks rt.sess.cfg v .arp = true
    · have hecho : asks rt.sess.cfg v .icmp = false := by
        grind [asks]
      rw [if_pos harp]
      cases hr : (arpHandle rt.sess.cfg v).2 <;> cases svc <;>
        simp_all [Sent.answers, Runtime.requests, Runtime.replies, refuses]
    rw [if_neg harp]
    by_cases hecho : asks rt.sess.cfg v .icmp = true
    · rw [if_pos hecho]
      cases hr : (icmpHandle rt.sess.cfg v).2 <;> cases svc <;>
        simp_all [Sent.answers, Runtime.requests, Runtime.replies, refuses]
    -- a datagram, or nothing for us
    rw [if_neg hecho]
    split <;> [skip; split] <;> cases svc <;>
      simp_all [toSessions, Sent.answers, Runtime.requests, Runtime.replies, refuses, Function.comp_def]

/-- The engine, and for each responder the answers sent and the requests turned away. -/
structure Tally where
  rt : Runtime
  sent : Svc → UInt64
  turned : Svc → UInt64

/-- A frame is captured. -/
def Tally.step (t : Tally) (f : Clock × Env × Bytes) : Tally :=
  let r := onPkt t.rt f.1 f.2.1 f.2.2
  { rt := r.1
    sent := fun svc => t.sent svc + UInt64.ofNat (r.2.countP (·.answers svc))
    turned := fun svc => t.turned svc + if turnedAway t.rt.sess.cfg f.2.2 svc then 1 else 0 }

def Tally.boot (cfg : Config) : Tally := ⟨⟨sessmgrNew cfg, 0, 0, 0, 0⟩, fun _ => 0, fun _ => 0⟩

/-- **What the reply counters count.**  Whatever frames are captured, each responder's counter of
    replies is that of its requests, and it is the answers sent and the requests turned away. -/
theorem reply_counters_exact (cfg : Config) (fs : List (Clock × Env × Bytes)) :
    Always Tally.step (fun t => ∀ svc, t.rt.replies svc = t.rt.requests svc ∧
      t.rt.replies svc = t.sent svc + t.turned svc) (.boot cfg) fs := by
  refine always_of_step (fun t f h svc => ?_) (fun svc => by cases svc <;> exact ⟨rfl, rfl⟩) fs
  obtain ⟨n, hreq, hrep, hn⟩ := onPkt_counts t.rt f.1 f.2.1 f.2.2 svc
  obtain ⟨hsame, hsum⟩ := h svc
  refine ⟨?_, ?_⟩
  · show (onPkt _ _ _ _).1.replies svc = (onPkt _ _ _ _).1.requests svc
    rw [hreq, hrep, hsame]
  · show (onPkt _ _ _ _).1.replies svc = (t.sent svc + _) + (t.turned svc + _)
    rw [hrep, hsum, hn]
    ac_rfl

end Nishro.CCore
