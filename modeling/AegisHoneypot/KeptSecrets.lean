import AegisHoneypot.DashboardAuth
import AegisHoneypot.Library.KeptFile

-- The secrets that outlive a process: the host key of the gateway and the token
-- of the dashboard. A start that is killed while it stores one gives no answer;
-- here that is an error like the others.
namespace AegisHoneypot.KeptSecrets
open Utf8Text DashboardAuth KeptFile Transition

abbrev SecretFile := File UInt8

section Gateway
variable {K : Type}

-- The encodings of the SSH library: of a text cut short it makes either nothing
-- or the key that was cut.
structure KeyFormat (K : Type) where
  encodePkcs8Pem : K → Text
  decodeSecretKey : Text → Option K
  decode_encode : ∀ key, decodeSecretKey (encodePkcs8Pem key) = some key
  decode_cut : ∀ key front other, front <+: encodePkcs8Pem key → decodeSecretKey front = some other → other = key

inductive KeyError where
  | reading
  | decoding
  | generating
  | storing
  deriving DecidableEq, Repr

-- Without a configured path every start has a key of its own.
def loadOrCreateHostKey (format : KeyFormat K) (configured : Bool) (file : Option SecretFile) (start : Start K) :
    Except KeyError K × Option SecretFile :=
  if configured = false then
    (match start.fresh with
      | some key => .ok key
      | none => .error .generating,file)
  else if start.readable = false then (.error .reading,file) else
  match file with
  | some held =>
    (match fromUtf8 held.content with
      | none => .error .reading
      | some pem => match format.decodeSecretKey pem with
        | some key => .ok key
        | none => .error .decoding,file)
  | none => match start.fresh with
    | none => (.error .generating,none)
    | some key => (if start.reach = .all then .ok key else .error .storing,
        stored (encode (format.encodePkcs8Pem key)) start.reach)

theorem toOption_some {ε α : Type} (answer : Except ε α) (value : α) : answer.toOption = some value ↔ answer = .ok value := by
  cases answer <;> simp [Except.toOption]

def keyScheme (format : KeyFormat K) : Scheme K K UInt8 where
  secret key := key
  render key := encode (format.encodePkcs8Pem key)
  read bytes := (fromUtf8 bytes).bind format.decodeSecretKey
  read_render key := by rw [fromUtf8_iff.mpr rfl,Option.bind_some,format.decode_encode]

theorem hostKey_scheme (format : KeyFormat K) (file : Option SecretFile) (start : Start K) :
    (keyScheme format).start file start =
      ((loadOrCreateHostKey format true file start).1.toOption,(loadOrCreateHostKey format true file start).2) := by
  obtain ⟨fresh,readable,reach⟩ := start
  unfold loadOrCreateHostKey Scheme.start
  cases readable with
  | false => rfl
  | true =>
    cases file with
    | some held =>
      simp only [keyScheme,if_true,Bool.true_eq_false,if_false]
      cases fromUtf8 held.content with
      | none => rfl
      | some pem =>
        dsimp only [Option.bind_some]
        cases format.decodeSecretKey pem <;> rfl
    | none =>
      cases fresh with
      | none => rfl
      | some key => cases reach <;> rfl

theorem hostKey_runs (format : KeyFormat K) (file : Option SecretFile) (starts : List (Start K)) :
    (answers (loadOrCreateHostKey format true) file starts).2 = (answers (keyScheme format).start file starts).2 := by
  have each : ∀ (one other : Option SecretFile) (start : Start K), one = other →
      (loadOrCreateHostKey format true one start).1.toOption = ((keyScheme format).start other start).1 ∧
        (loadOrCreateHostKey format true one start).2 = ((keyScheme format).start other start).2 := by
    rintro one _ start rfl
    rw [hostKey_scheme]
    exact ⟨rfl,rfl⟩
  exact (answers_simulate Except.toOption each starts rfl).2

theorem hostKey_served (format : KeyFormat K) (starts : List (Start K)) (start : Start K) (key : K) :
    (loadOrCreateHostKey format true (answers (loadOrCreateHostKey format true) none starts).2 start).1 = .ok key ↔
      ((keyScheme format).start (answers (keyScheme format).start none starts).2 start).1 = some key := by
  rw [hostKey_scheme,← hostKey_runs,toOption_some]

-- The host key is settled by the first start that comes up: every later start that
-- can read its file has the same one, wherever the starts in between were killed.
theorem host_key_survives (format : KeyFormat K) (earlier : List (Start K)) (start : Start K) (key : K)
    (served : (loadOrCreateHostKey format true (answers (loadOrCreateHostKey format true) none earlier).2 start).1 = .ok key) :
    (∃ first ∈ earlier ++ [start], first.fresh = some key) ∧
    ∀ between next, next.readable = true →
      (loadOrCreateHostKey format true
        (answers (loadOrCreateHostKey format true) none (earlier ++ start :: between)).2 next).1 = .ok key := by
  have known := (hostKey_served format earlier start key).mp served
  constructor
  · obtain ⟨first,inside,fresh,made,origin⟩ := served_origin known
    refine ⟨first,inside,?_⟩
    rcases origin with rfl | ⟨count,_,read⟩
    · exact made
    · obtain ⟨pem,cut,decoded⟩ := Option.bind_eq_some_iff.mp read
      have front : encode pem <+: encode (format.encodePkcs8Pem fresh) := fromUtf8_iff.mp cut ▸ List.take_prefix _ _
      rw [format.decode_cut fresh pem key (encode_front _ _ front) decoded]
      exact made
  · intro between next readable
    have again := serves_on known between next
    rw [if_pos readable] at again
    rw [hostKey_served,answers_append]
    exact again

-- A format with one line for each of two keys, in which the whole line is needed.
def lineFormat : KeyFormat Bool where
  encodePkcs8Pem key := if key then "T\n".toList else "F\n".toList
  decodeSecretKey pem := if pem = "T\n".toList then some true else if pem = "F\n".toList then some false else none
  decode_encode := by decide
  decode_cut := by
    intro key front other cut decoded
    split at decoded
    · rename_i line
      subst line
      cases decoded
      revert key
      decide
    · split at decoded
      · rename_i line
        subst line
        cases decoded
        revert key
        decide
      · cases decoded

-- A start that dies before it stores anything, one that comes up, one that cannot
-- read the file and one that can make no key of its own.
theorem key_survives_restarts : (loadOrCreateHostKey lineFormat true (answers (loadOrCreateHostKey lineFormat true) none
    ([⟨some true,true,.nothing⟩] ++ ⟨some false,true,.all⟩ :: [⟨some true,false,.all⟩])).2 ⟨none,true,.nothing⟩).1 = .ok false :=
  (host_key_survives lineFormat [⟨some true,true,.nothing⟩] ⟨some false,true,.all⟩ false (by decide)).2 [⟨some true,false,.all⟩]
    ⟨none,true,.nothing⟩ rfl

end Gateway

section Dashboard

structure DashboardStart where
  uuids : Bytes × Bytes
  readable : Bool
  reach : Reach

def DashboardStart.io (start : DashboardStart) : TokenIo where
  uuids := start.uuids
  createsParent := start.reach ≠ .nothing
  writes := start.reach = .all
  restricts := start.reach = .all

def DashboardStart.seen (start : DashboardStart) (file : Option SecretFile) : TokenFile :=
  if start.readable then
    match file with
    | some held => .content held.content
    | none => .missing
  else .unreadable "permission denied".toList

-- `load_or_create_token`, with what becomes of the file.
def startDashboard (file : Option SecretFile) (start : DashboardStart) : Except TokenError Text × Option SecretFile :=
  (loadOrCreateToken start.io (start.seen file),
    if start.readable ∧ file = none then stored (encode (generateToken start.io)) start.reach else file)

def tokenOfUuids (uuids : Bytes × Bytes) : Text := hexEncode (uuids.1 ++ uuids.2)

theorem hexEncode_plain (bytes : Bytes) : ∀ c ∈ hexEncode bytes, Text.isWhitespace c = false ∧ c.toNat < 0x80 := by
  have digits : ∀ n < 16, Text.isWhitespace (hexDigit n) = false ∧ (hexDigit n).toNat < 0x80 := by decide
  intro c inside
  obtain ⟨byte,_,digit⟩ := List.mem_flatMap.mp inside
  have small := byte.toNat_lt
  rcases List.mem_cons.mp digit with rfl | last
  · exact digits _ (by omega)
  · rw [List.mem_singleton.mp last]
    exact digits _ (Nat.mod_lt _ (by omega))

theorem token_trim (uuids : Bytes × Bytes) (front : Text) (cut : front <+: tokenOfUuids uuids) : front.trim = front :=
  Text.trim_solid front fun c inside => (hexEncode_plain _ c (cut.subset inside)).1

theorem token_cut (uuids : Bytes × Bytes) (count : Nat) :
    (encode (tokenOfUuids uuids)).take count = encode ((tokenOfUuids uuids).take count) := by
  have plain : ∀ c ∈ tokenOfUuids uuids, c.toNat < 0x80 := fun c inside => (hexEncode_plain _ c inside).2
  rw [encode_ascii _ plain,encode_ascii _ (fun c inside => plain c (List.mem_of_mem_take inside)),List.map_take]

theorem token_read (uuids : Bytes × Bytes) (front : Text) (cut : front <+: tokenOfUuids uuids) :
    (fromUtf8 (encode front)).map Text.trim = some front := by
  rw [fromUtf8_iff.mpr rfl,Option.map_some,token_trim uuids front cut]

def tokenScheme : Scheme (Bytes × Bytes) Text UInt8 where
  secret := tokenOfUuids
  render uuids := encode (tokenOfUuids uuids)
  read bytes := (fromUtf8 bytes).map Text.trim
  read_render uuids := token_read uuids _ (List.prefix_refl _)

def DashboardStart.start (start : DashboardStart) : Start (Bytes × Bytes) := ⟨some start.uuids,start.readable,start.reach⟩

theorem token_scheme (file : Option SecretFile) (start : DashboardStart) :
    tokenScheme.start file start.start = ((startDashboard file start).1.toOption,(startDashboard file start).2) := by
  obtain ⟨uuids,readable,reach⟩ := start
  cases readable with
  | false => rfl
  | true =>
    cases file with
    | some held =>
      have loaded : tokenScheme.read held.content =
          (loadOrCreateToken (DashboardStart.io ⟨uuids,true,reach⟩) (.content held.content)).toOption := by
        unfold loadOrCreateToken tokenScheme
        dsimp only
        cases fromUtf8 held.content <;> rfl
      exact (start_held tokenScheme held _).trans (congrArg (·,some held) loaded)
    | none => cases reach <;> rfl

theorem token_runs (file : Option SecretFile) (starts : List DashboardStart) :
    (answers startDashboard file starts).2 = (answers tokenScheme.start file (starts.map DashboardStart.start)).2 := by
  have each : ∀ (one other : Option SecretFile) (start : DashboardStart), one = other →
      (startDashboard one start).1.toOption = (tokenScheme.start other start.start).1 ∧
        (startDashboard one start).2 = (tokenScheme.start other start.start).2 := by
    rintro one _ start rfl
    rw [token_scheme]
    exact ⟨rfl,rfl⟩
  rw [answers_map]
  exact (answers_simulate Except.toOption each starts rfl).2

theorem token_served (starts : List DashboardStart) (start : DashboardStart) (token : Text) :
    (startDashboard (answers startDashboard none starts).2 start).1 = .ok token ↔
      (tokenScheme.start (answers tokenScheme.start none (starts.map DashboardStart.start)).2 start.start).1 = some token := by
  rw [token_scheme,← token_runs,toOption_some]

-- The token is settled by the first start that comes up as well, but that may be
-- on the front of a token whose storing was cut short.
theorem token_survives (earlier : List DashboardStart) (start : DashboardStart) (token : Text)
    (served : (startDashboard (answers startDashboard none earlier).2 start).1 = .ok token) :
    (∃ first ∈ earlier ++ [start], token = tokenOfUuids first.uuids ∨
      ∃ count, first.reach = .part count ∧ token = (tokenOfUuids first.uuids).take count) ∧
    ∀ between next, next.readable = true →
      (startDashboard (answers startDashboard none (earlier ++ start :: between)).2 next).1 = .ok token := by
  have known := (token_served earlier start token).mp served
  constructor
  · obtain ⟨first,inside,fresh,made,origin⟩ := served_origin known
    have listed : first ∈ (earlier ++ [start]).map DashboardStart.start := by
      rw [List.map_append]
      exact inside
    obtain ⟨begun,within,rfl⟩ := List.mem_map.mp listed
    obtain rfl : begun.uuids = fresh := Option.some.inj made
    refine ⟨begun,within,origin.imp_right ?_⟩
    rintro ⟨count,reach,read⟩
    refine ⟨count,reach,?_⟩
    have front := token_read begun.uuids _ (List.take_prefix count (tokenOfUuids begun.uuids))
    rw [← token_cut] at front
    exact Option.some.inj (read.symm.trans front)
  · intro between next readable
    have again := serves_on known (between.map DashboardStart.start) next.start
    rw [if_pos (show next.start.readable = true from readable)] at again
    rw [token_served,List.map_append,List.map_cons,answers_append]
    exact again

def quickStart (reach : Reach) : DashboardStart := ⟨([0xAB],[0xCD]),true,reach⟩

-- The first start dies with two characters stored.
theorem short_token_survives :
    (startDashboard (answers startDashboard none ([quickStart (.part 2)] ++ quickStart .all :: [])).2 (quickStart .nothing)).1 =
      .ok "ab".toList :=
  (token_survives [quickStart (.part 2)] (quickStart .all) "ab".toList (by decide)).2 [] (quickStart .nothing) rfl

-- Who gets past a dashboard whose token was cut short when it was stored: those
-- who show what was stored of it. Nothing makes the token whole again, nor its
-- file private.
theorem cut_token_guards {ρ : Type} (respond : Request → ρ) (earlier between : List DashboardStart) (uuids : Bytes × Bytes)
    (count : Nat) (next : DashboardStart) (request : Request) (fresh : (answers startDashboard none earlier).2 = none)
    (readable : next.readable = true) :
    let file := (answers startDashboard none (earlier ++ ⟨uuids,true,.part count⟩ :: between)).2
    file = some ⟨encode ((tokenOfUuids uuids).take count),false⟩ ∧
    ∃ token, (startDashboard file next).1 = .ok token ∧
      ((∃ reply, requireAuth respond ⟨token,true⟩ request = .ok reply) ↔ Presents request ((tokenOfUuids uuids).take count)) := by
  have stays : (answers startDashboard none (earlier ++ ⟨uuids,true,.part count⟩ :: between)).2 =
      some ⟨encode ((tokenOfUuids uuids).take count),false⟩ := by
    rw [token_runs,List.map_append,List.map_cons,answers_append,← token_runs,fresh,← token_cut]
    exact held_stays tokenScheme _ _
  dsimp only
  rw [stays]
  refine ⟨rfl,(tokenOfUuids uuids).take count,?_,requireAuth_exact respond _ request⟩
  rw [← toOption_some]
  have served := congrArg Prod.fst (token_scheme (some ⟨encode ((tokenOfUuids uuids).take count),false⟩) next)
  rw [start_held,if_pos (show next.start.readable = true from readable)] at served
  exact served.symm.trans (token_read uuids _ (List.take_prefix _ _))

-- The first start dies with the file made and nothing in it.
theorem empty_token_guards :
    let file := (answers startDashboard none ([] ++ quickStart (.part 0) :: [])).2
    file = some ⟨[],false⟩ ∧ ∃ token, (startDashboard file (quickStart .all)).1 = .ok token ∧
      ((∃ reply, requireAuth (fun _ => ()) ⟨token,true⟩ emptyToken = .ok reply) ↔ Presents emptyToken []) :=
  cut_token_guards (fun _ => ()) [] [] ([0xAB],[0xCD]) 0 (quickStart .all) emptyToken rfl rfl

end Dashboard

end AegisHoneypot.KeptSecrets
