import Chimera.Config.Value
import Chimera.Manager.World

/-! Mihomo's field tables, its inbound surface and what may overlap an outgoing
epoch. -/

namespace Chimera.Config
open Chimera.Manager

/-! ## Field tables -/

def inboundPortFields : List String :=
  ["port", "socks-port", "redir-port", "tproxy-port", "mixed-port"]

def patchFields : List String :=
  ["port", "socks-port", "redir-port", "tproxy-port", "mixed-port", "tun", "tuic-server",
    "ss-config", "vmess-config", "tcptun-config", "udptun-config", "allow-lan",
    "skip-auth-prefixes", "lan-allowed-ips", "lan-disallowed-ips", "bind-address", "mode",
    "log-level", "ipv6", "sniffing", "tcp-concurrent", "find-process-mode", "interface-name"]

def tunPatchFields : List String :=
  ["enable", "device", "stack", "dns-hijack", "auto-route", "auto-detect-interface", "mtu", "gso",
    "gso-max-size", "inet6-address", "iproute2-table-index", "iproute2-rule-index",
    "auto-redirect", "auto-redirect-input-mark", "auto-redirect-output-mark",
    "auto-redirect-iproute2-fallback-rule-index", "loopback-address", "strict-route",
    "route-address", "route-address-set", "route-exclude-address", "route-exclude-address-set",
    "include-interface", "exclude-interface", "include-uid", "include-uid-range", "exclude-uid",
    "exclude-uid-range", "include-android-user", "include-package", "exclude-package",
    "include-mac-address", "exclude-mac-address", "endpoint-independent-nat", "udp-timeout",
    "icmp-timeout", "file-descriptor", "inet4-route-address", "inet6-route-address",
    "inet4-route-exclude-address", "inet6-route-exclude-address", "recvmsgx", "sendmsgx"]

def tuicServerPatchFields : List String :=
  ["enable", "listen", "token", "users", "certificate", "private-key", "congestion-controller",
    "max-idle-time", "authentication-timeout", "alpn", "max-udp-relay-packet-size", "cwnd",
    "bbr-profile"]

def reloadFields : List String :=
  ["proxies", "proxy-groups", "proxy-providers", "rule-providers", "providers", "rules", "hosts",
    "dns"]

/-! ## Zeroing -/

def zeroListener (document : Mapping) (key : String) : Mapping :=
  if (((document.get key).bind Value.asI64).filter (· ≠ 0)).isSome then
    document.insert key (.number (.int 0))
  else document

def zeroInbounds (document : Mapping) : Mapping :=
  let document := inboundPortFields.foldl zeroListener document
  match (document.get "tun").bind Value.asMapping with
  | some tun =>
    if (tun.get "enable").bind Value.asBool = some true then
      document.insert "tun" (.mapping (tun.insert "enable" (.bool false)))
    else document
  | none => document

/-! ## What blocks an overlap -/

def dnsListen (document : Mapping) : Option Value :=
  ((document.get "dns").bind Value.asMapping).bind fun dns => Mapping.get dns "listen"

def portBlocks (value : Value) : Bool := value.asI64.isNone

def tunBlocks : Value → Bool
  | .mapping tun => (Mapping.get tun "enable").any fun enable => enable.asBool.isNone
  | _ => true

def tuicBlocks : Value → Bool
  | .mapping tuic => match Mapping.get tuic "enable" with
    | some enable => enable.asBool ≠ some false
    | none => !tuic.isEmpty
  | _ => true

def textBlocks (value : Value) : Bool := value.asStr ≠ some ""

def nonemptyCollection : Value → Bool
  | .null => false
  | .string text => text ≠ ""
  | .sequence items => !items.isEmpty
  | .mapping entries => !entries.isEmpty
  | .bool _ | .number _ => true

/-- A key that ends in `-port` or names a listener, an inbound or a tunnel. -/
def inboundLike (key : String) : Bool :=
  decide ("-port".toList <:+ key.toList) || decide ("listener".toList <:+: key.toList) ||
    decide ("inbound".toList <:+: key.toList) || decide ("tunnel".toList <:+: key.toList)

def keyBlocks (key : String) : Bool :=
  inboundLike key && !patchFields.contains key && !(key = "listeners" || key = "tunnels")

def serverFields : List String := ["ss-config", "vmess-config", "tcptun-config", "udptun-config"]

def collectionFields : List String := ["listeners", "tunnels"]

/-- What `overlap_block` looks at after `dns.listen`. -/
def surfaceBlocks (document : Mapping) : Bool :=
  (inboundPortFields.any fun key => (document.get key).any portBlocks) ||
    (document.get "tun").any tunBlocks ||
    (document.get "tuic-server").any tuicBlocks ||
    (serverFields.any fun key => (document.get key).any textBlocks) ||
    (collectionFields.any fun key => (document.get key).any nonemptyCollection) ||
    document.keys.any keyBlocks

def overlapBlock (document : Mapping) : Option OverlapBlock :=
  match dnsListen document with
  | some listen => match listen.asStr with
    | some "" => none
    | some _ => some .dnsListen
    | none => if listen.isNull then none else some .inboundSurface
  | none => if surfaceBlocks document then some .inboundSurface else none

/-! ## What zeroing does to each field -/

section Zeroing

variable {document : Mapping} {key other : String}

/-- A port that is not zero becomes zero; what is no port stays. -/
def zeroPort (value : Value) : Value :=
  if (value.asI64.filter (· ≠ 0)).isSome then .number (.int 0) else value

/-- A `tun` that is enabled is disabled. -/
def disableTun : Value → Value
  | .mapping tun =>
    if (Mapping.get tun "enable").bind Value.asBool = some true then
      .mapping (Mapping.insert tun "enable" (.bool false))
    else .mapping tun
  | value => value

theorem get_zeroListener : (zeroListener document key).get other =
    if other = key then (document.get key).map zeroPort else document.get other := by
  unfold zeroListener
  by_cases h : other = key
  · subst h
    rw [if_pos rfl]
    cases hget : document.get other with
    | none => simp [hget]
    | some value =>
      simp only [Option.bind_some, Option.map_some, zeroPort]
      split
      · rw [Mapping.get_insert, if_pos rfl]
      · exact hget
  · rw [if_neg h]
    split
    · rw [Mapping.get_insert, if_neg h]
    · rfl

theorem get_zeroListeners {keys : List String} (hkeys : keys.Nodup) :
    (keys.foldl zeroListener document).get other =
      if other ∈ keys then (document.get other).map zeroPort else document.get other := by
  induction keys generalizing document with
  | nil => simp
  | cons key rest ih =>
    obtain ⟨hkey, hrest⟩ := List.nodup_cons.1 hkeys
    rw [List.foldl_cons, ih hrest, get_zeroListener]
    by_cases h : other = key
    · subst h
      simp [hkey]
    · simp [h]

theorem get_zeroInbounds : (zeroInbounds document).get key =
    if key ∈ inboundPortFields then (document.get key).map zeroPort
    else if key = "tun" then (document.get "tun").map disableTun
    else document.get key := by
  have hports (other : String) : (inboundPortFields.foldl zeroListener document).get other =
      if other ∈ inboundPortFields then (document.get other).map zeroPort
      else document.get other := get_zeroListeners (by decide)
  have htun : (inboundPortFields.foldl zeroListener document).get "tun" = document.get "tun" := by
    rw [hports, if_neg (by decide)]
  unfold zeroInbounds
  simp only [htun]
  by_cases hkey : key = "tun"
  · subst hkey
    rw [if_neg (by decide), if_pos rfl]
    cases hget : document.get "tun" with
    | none => simpa [hget] using htun
    | some value =>
      rw [hget] at htun
      cases value with
      | mapping tun =>
        simp only [Option.bind_some, Value.asMapping, Option.map_some, disableTun]
        split
        · rw [Mapping.get_insert, if_pos rfl]
        · exact htun
      | null | bool _ | number _ | string _ | sequence _ => exact htun
  · rw [if_neg hkey, ← hports]
    split
    · split
      · rw [Mapping.get_insert, if_neg hkey]
      · rfl
    · rfl

theorem zeroInbounds_canonical (h : document.Canonical) : (zeroInbounds document).Canonical := by
  have hports : ∀ (keys : List String) (document : Mapping), document.Canonical →
      (keys.foldl zeroListener document).Canonical := by
    intro keys
    induction keys with
    | nil => exact fun _ h => h
    | cons key rest ih =>
      intro document h
      refine ih _ ?_
      unfold zeroListener
      split
      · exact h.insert rfl
      · exact h
  have hzeroed := hports inboundPortFields document h
  unfold zeroInbounds
  simp only
  split
  · rename_i tun htun
    split
    · obtain ⟨value, hvalue, htun⟩ := Option.bind_eq_some_iff.1 htun
      cases value with
      | mapping m =>
        cases htun
        exact hzeroed.insert ((hzeroed.inner hvalue).insert rfl)
      | null | bool _ | number _ | string _ | sequence _ => cases htun
    · exact hzeroed
  · exact hzeroed

end Zeroing

end Chimera.Config
