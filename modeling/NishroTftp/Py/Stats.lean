import NishroTftp.Lib.Utf8
import Mathlib.Data.List.Nodup
/-
  The counters of the Python engine (`core/stats.py`) under their names, which are the keys of the
  carryover (`core/carryover.py`) as well.
-/
namespace Nishro.Py

open Utf8 (Text text)

/-- The counters of `STATS`, which are those of the carryover. -/
inductive Counter
  | bytesSent | bytesReceived
  | tftpRrq | tftpWrq | tftpErrors
  | tftpSessionsTotal | tftpSessionsCompleted | tftpSessionsFailed
  | aclDenied | vlanDenied | ipDenied
  | arpRequests | arpReplies
  | icmpRequests | icmpReplies
  | cacheHits | cacheMisses
deriving DecidableEq, Repr

def Counter.name : Counter → String
  | .bytesSent => "bytes_sent"
  | .bytesReceived => "bytes_received"
  | .tftpRrq => "tftp_rrq"
  | .tftpWrq => "tftp_wrq"
  | .tftpErrors => "tftp_errors"
  | .tftpSessionsTotal => "tftp_sessions_total"
  | .tftpSessionsCompleted => "tftp_sessions_completed"
  | .tftpSessionsFailed => "tftp_sessions_failed"
  | .aclDenied => "acl_denied"
  | .vlanDenied => "vlan_denied"
  | .ipDenied => "ip_denied"
  | .arpRequests => "arp_requests"
  | .arpReplies => "arp_replies"
  | .icmpRequests => "icmp_requests"
  | .icmpReplies => "icmp_replies"
  | .cacheHits => "cache_hits"
  | .cacheMisses => "cache_misses"

def Counter.key (k : Counter) : Text := text k.name

/-- `carryover._KEYS`. -/
def KEYS : List Counter :=
  [.bytesSent, .bytesReceived, .tftpRrq, .tftpWrq, .tftpErrors, .tftpSessionsTotal,
    .tftpSessionsCompleted, .tftpSessionsFailed, .aclDenied, .vlanDenied, .ipDenied,
    .arpRequests, .arpReplies, .icmpRequests, .icmpReplies, .cacheHits, .cacheMisses]

theorem mem_KEYS (k : Counter) : k ∈ KEYS := by cases k <;> decide

theorem nodup_keys : (KEYS.map Counter.key).Nodup := by decide +kernel

theorem key_injective {k k' : Counter} (h : k.key = k'.key) : k = k' :=
  List.inj_on_of_nodup_map nodup_keys (mem_KEYS k) (mem_KEYS k') h

/-- `STATS.counters`. -/
abbrev Counts := Counter → Nat

/-- `STATS.bump`. -/
def bump (st : Counts) (k : Counter) (amount : Nat) : Counts :=
  fun j => if j = k then st j + amount else st j

end Nishro.Py
