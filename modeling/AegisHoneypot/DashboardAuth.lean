import AegisHoneypot.Library.Utf8Text

namespace AegisHoneypot.DashboardAuth
open Utf8Text

inductive TokenFile where
  | content (bytes : Bytes)
  | missing
  | unreadable (reason : Text)

-- The two random UUIDs behind a new token, and which of the three steps that
-- store it succeed.
structure TokenIo where
  uuids : Bytes × Bytes
  createsParent : Bool
  writes : Bool
  restricts : Bool

inductive TokenError where
  | reading (reason : Text)
  | creatingParent
  | writing
  | restricting
  deriving DecidableEq, Repr

def hexDigit (n : Nat) : Char := if n < 10 then Char.ofNat (48+n) else Char.ofNat (87+n)

def hexEncode (bytes : Bytes) : Text := bytes.flatMap (fun byte => [hexDigit (byte.toNat/16),hexDigit (byte.toNat%16)])

def generateToken (io : TokenIo) : Text := hexEncode (io.uuids.1 ++ io.uuids.2)

-- Reading a file into a string fails where its bytes are no UTF-8.
def loadOrCreateToken (io : TokenIo) : TokenFile → Except TokenError Text
  | .content bytes => match fromUtf8 bytes with
    | some token => .ok token.trim
    | none => .error (.reading "stream did not contain valid UTF-8".toList)
  | .missing =>
    if io.createsParent = false then .error .creatingParent
    else if io.writes = false then .error .writing
    else if io.restricts = false then .error .restricting
    else .ok (generateToken io)
  | .unreadable reason => .error (.reading reason)

structure AppState where
  token : Text
  requireAuth : Bool

-- Header names are kept in lower case; a name may come several times.
structure Request where
  path : Text
  query : Option Text
  headers : List (Text × Bytes)
  deriving DecidableEq, Repr

inductive StatusCode where
  | unauthorized
  deriving DecidableEq, Repr

def isVisible (byte : UInt8) : Bool := (32 ≤ byte && byte < 127) || byte == 9

-- `HeaderValue::to_str`
def toStr (value : Bytes) : Option Text :=
  if value.all isVisible then some (value.map (fun byte => Char.ofNat byte.toNat)) else none

def afterHead (head : String) (text : Text) : Option Text :=
  if text.startsWith head then some (text.drop head.length) else none

def splitOnce (separator : Char) (text : Text) : Option (Text × Text) :=
  if separator ∈ text then some (text.takeWhile (· ≠ separator),(text.dropWhile (· ≠ separator)).drop 1) else none

def tokenOf (pair : Text) : Option Text :=
  (splitOnce '=' pair).bind (fun halves => if halves.1 = "token".toList then some halves.2 else none)

def queryToken (query : Option Text) : Option Text := query.bind (fun text => (text.split '&').findSome? tokenOf)

-- The loop of `ct_eq` looks at every byte, whatever it has found before.
def ctEq (left right : Bytes) : Bool := (List.zipWith (· == ·) left right).foldl (· && ·) true

def constantTimeEq (left right : Text) : Bool :=
  (encode left).length == (encode right).length && ctEq (encode left) (encode right)

def headerToken (request : Request) : Option Text :=
  ((request.headers.lookup "authorization".toList).bind toStr).bind (afterHead "Bearer ")

def queryAllowed (path : Text) : Bool := path == "/".toList || path == "/api/stream".toList

def provided (request : Request) : Option Text :=
  match headerToken request with
  | some token => some token
  | none => if queryAllowed request.path then queryToken request.query else none

def requireAuth {ρ : Type} (next : Request → ρ) (state : AppState) (request : Request) : Except StatusCode ρ :=
  if state.requireAuth = false then .ok (next request) else
  match provided request with
  | some token => if constantTimeEq token state.token then .ok (next request) else .error .unauthorized
  | none => .error .unauthorized

-- What it means to present a credential, in terms of the request alone.
def Bearer (request : Request) (credential : Text) : Prop :=
  ∃ value, request.headers.lookup "authorization".toList = some value ∧
    toStr value = some ("Bearer ".toList ++ credential)

def FirstTokenPair (query credential : Text) : Prop :=
  ∃ before after, query.split '&' = before ++ ("token=".toList ++ credential) :: after ∧
    ∀ pair ∈ before, ¬ "token=".toList <+: pair

def InQuery (request : Request) (credential : Text) : Prop :=
  (request.path = "/".toList ∨ request.path = "/api/stream".toList) ∧ (∀ other, ¬ Bearer request other) ∧
    ∃ query, request.query = some query ∧ FirstTokenPair query credential

def Presents (request : Request) (credential : Text) : Prop := Bearer request credential ∨ InQuery request credential

theorem afterHead_exact (head : String) (text rest : Text) : afterHead head text = some rest ↔ text = head.toList ++ rest := by
  unfold afterHead Text.startsWith
  constructor
  · intro found
    split at found
    · rename_i starts
      obtain ⟨tail,rfl⟩ := List.isPrefixOf_iff_prefix.mp starts
      cases found
      simp [← String.length_toList]
    · cases found
  · intro same
    subst same
    have starts : head.toList.isPrefixOf (head.toList ++ rest) = true :=
      List.isPrefixOf_iff_prefix.mpr (List.prefix_append _ _)
    rw [if_pos starts]
    simp [← String.length_toList]

theorem headerToken_exact (request : Request) (credential : Text) :
    headerToken request = some credential ↔ Bearer request credential := by
  simp only [headerToken,Option.bind_eq_some_iff,afterHead_exact,Bearer]
  constructor
  · intro given
    obtain ⟨text,⟨value,found,read⟩,rfl⟩ := given
    exact ⟨value,found,read⟩
  · intro given
    obtain ⟨value,found,read⟩ := given
    exact ⟨_,⟨value,found,read⟩,rfl⟩

theorem splitOnce_exact (separator : Char) (text key value : Text) :
    splitOnce separator text = some (key,value) ↔ text = key ++ separator :: value ∧ separator ∉ key := by
  unfold splitOnce
  constructor
  · intro found
    split at found
    · rename_i inside
      cases found
      refine ⟨?_,?_⟩
      · have rest : text.dropWhile (· ≠ separator) ≠ [] := by
          intro none
          have all := List.dropWhile_eq_nil_iff.mp none separator inside
          simp at all
        cases dropped : text.dropWhile (· ≠ separator) with
        | nil => exact absurd dropped rest
        | cons first more =>
          have stops := List.head_dropWhile_not (· ≠ separator) rest
          simp only [dropped,List.head_cons] at stops
          have same : first = separator := by simpa using stops
          have whole := List.takeWhile_append_dropWhile (p := (· ≠ separator)) (l := text)
          rw [dropped,same] at whole
          simpa using whole.symm
      · intro member
        have ordinary := List.mem_takeWhile_imp member
        simp at ordinary
    · cases found
  · intro given
    obtain ⟨rfl,free⟩ := given
    have all : ∀ c ∈ key, (decide (c ≠ separator)) = true := by
      intro c member
      have other : c ≠ separator := fun same => free (same ▸ member)
      simpa using other
    rw [if_pos (by simp),List.takeWhile_append_of_pos all,List.dropWhile_append_of_pos all]
    simp

theorem tokenOf_exact (pair credential : Text) : tokenOf pair = some credential ↔ pair = "token=".toList ++ credential := by
  unfold tokenOf
  constructor
  · intro found
    obtain ⟨halves,split,named⟩ := Option.bind_eq_some_iff.mp found
    obtain ⟨rfl,_⟩ := (splitOnce_exact '=' pair halves.1 halves.2).mp split
    split at named
    · rename_i key
      cases named
      rw [key]
      rfl
    · cases named
  · intro same
    have split : splitOnce '=' pair = some ("token".toList,credential) :=
      (splitOnce_exact '=' pair _ _).mpr ⟨same,by decide⟩
    rw [split]
    rfl

theorem queryToken_exact (query credential : Text) :
    queryToken (some query) = some credential ↔ FirstTokenPair query credential := by
  have other : ∀ pair, tokenOf pair = none ↔ ¬ "token=".toList <+: pair := by
    intro pair
    rw [Option.eq_none_iff_forall_ne_some]
    constructor
    · intro none starts
      obtain ⟨rest,same⟩ := starts
      exact none rest ((tokenOf_exact pair rest).mpr same.symm)
    · intro none rest found
      exact none ⟨rest,((tokenOf_exact pair rest).mp found).symm⟩
  simp only [queryToken,Option.bind_some,List.findSome?_eq_some_iff,FirstTokenPair,tokenOf_exact,other]
  constructor
  · intro given
    obtain ⟨before,pair,after,split,rfl,earlier⟩ := given
    exact ⟨before,after,split,earlier⟩
  · intro given
    obtain ⟨before,after,split,earlier⟩ := given
    exact ⟨before,_,after,split,rfl,earlier⟩

theorem queryAllowed_exact (path : Text) :
    queryAllowed path = true ↔ path = "/".toList ∨ path = "/api/stream".toList := by
  rw [queryAllowed,Bool.or_eq_true,beq_iff_eq,beq_iff_eq]

theorem provided_exact (request : Request) (credential : Text) :
    provided request = some credential ↔ Presents request credential := by
  unfold provided Presents InQuery
  cases header : headerToken request with
  | some token =>
    have bears : Bearer request token := (headerToken_exact request token).mp header
    rw [← headerToken_exact request credential,header]
    constructor
    · exact Or.inl
    · intro either
      rcases either with same | ⟨_,none,_⟩
      · exact same
      · exact absurd bears (none token)
  | none =>
    have bare : ∀ other, ¬ Bearer request other := by
      intro other bears
      rw [← headerToken_exact,header] at bears
      cases bears
    simp only [bare,false_or,not_false_eq_true,implies_true,true_and]
    cases query : request.query with
    | none => simp [queryToken]
    | some text =>
      simp only [Option.some.injEq,exists_eq_left',← queryToken_exact text credential]
      rw [← queryAllowed_exact]
      by_cases allowed : queryAllowed request.path = true
      · simp only [allowed,if_true,true_and]
      · simp only [allowed,Bool.false_eq_true,if_false,false_and,reduceCtorEq]

theorem ctEq_exact (left right : Bytes) (lengths : left.length = right.length) : ctEq left right = true ↔ left = right := by
  have folded : ∀ (answers : List Bool) (start : Bool), answers.foldl (· && ·) start = (start && answers.all id) := by
    intro answers
    induction answers with
    | nil => simp
    | cons answer rest ih => intro start; simp [ih,Bool.and_assoc]
  unfold ctEq
  rw [folded,Bool.true_and]
  induction left generalizing right with
  | nil => simp [List.length_eq_zero_iff.mp lengths.symm]
  | cons byte left ih =>
    cases right with
    | nil => cases lengths
    | cons other right => simp [ih right (Nat.succ.inj lengths)]

theorem constantTimeEq_exact (left right : Text) : constantTimeEq left right = true ↔ left = right := by
  unfold constantTimeEq
  rw [Bool.and_eq_true,beq_iff_eq]
  constructor
  · intro given
    exact encode_injective left right ((ctEq_exact _ _ given.1).mp given.2)
  · intro same
    subst same
    exact ⟨rfl,(ctEq_exact _ _ rfl).mpr rfl⟩

section Middleware
variable {ρ : Type} (next : Request → ρ)

-- The middleware lets a request through exactly when it presents the token.
theorem requireAuth_exact (token : Text) (request : Request) :
    (∃ reply, requireAuth next ⟨token,true⟩ request = .ok reply) ↔ Presents request token := by
  unfold requireAuth
  rw [if_neg (by simp),← provided_exact]
  cases provided request with
  | none => simp
  | some credential =>
    by_cases same : credential = token
    · simp [same,(constantTimeEq_exact token token).mpr rfl]
    · have differ : ¬ constantTimeEq credential token = true := fun equal => same ((constantTimeEq_exact _ _).mp equal)
      simp [same,differ]

theorem requireAuth_refuses (token : Text) (request : Request) (absent : ¬ Presents request token) :
    requireAuth next ⟨token,true⟩ request = .error .unauthorized := by
  have shut := mt (requireAuth_exact next token request).mp absent
  cases answer : requireAuth next ⟨token,true⟩ request with
  | ok reply => exact absurd ⟨reply,answer⟩ shut
  | error code => cases code; rfl

-- With the token of this file in force, what a request has to show.
structure Guarded (content : Bytes) (token : Text) : Prop where
  runs : ∀ request reply, requireAuth next ⟨token,true⟩ request = .ok reply →
    ∃ credential, credential ≠ [] ∧ (fromUtf8 content).map Text.trim = some credential ∧ Presents request credential
  refuses : ∀ request, (∀ credential, Presents request credential → credential = []) →
    requireAuth next ⟨token,true⟩ request = .error .unauthorized

def emptyToken : Request := ⟨"/".toList,some "token=".toList,[]⟩

theorem emptyToken_presents : Presents emptyToken [] :=
  (provided_exact emptyToken []).mp (by decide)

theorem dashboard_auth_exact (io : TokenIo) (content : Bytes) :
    (∀ token, loadOrCreateToken io (.content content) = .ok token → Guarded next content token) ↔
      ∀ text, fromUtf8 content = some text → text.trim ≠ [] := by
  constructor
  · intro guarded text read blank
    have loaded : loadOrCreateToken io (.content content) = .ok [] := by simp [loadOrCreateToken,read,blank]
    obtain ⟨reply,passed⟩ := (requireAuth_exact next [] emptyToken).mpr emptyToken_presents
    obtain ⟨credential,filled,same,_⟩ := (guarded [] loaded).runs emptyToken reply passed
    rw [read,Option.map_some,blank] at same
    exact filled (Option.some.inj same).symm
  · intro filled token loaded
    cases read : fromUtf8 content with
    | none => simp [loadOrCreateToken,read] at loaded
    | some text =>
      have trimmed : text.trim = token := by simpa [loadOrCreateToken,read] using loaded
      have some_ : token ≠ [] := trimmed ▸ filled text read
      constructor
      · intro request reply passed
        refine ⟨token,some_,by simp [read,trimmed],?_⟩
        exact (requireAuth_exact next token request).mp ⟨reply,passed⟩
      · intro request none
        apply requireAuth_refuses
        intro presents
        exact some_ (none token presents)

end Middleware

def acceptedIo : TokenIo := ⟨([],[]),true,true,true⟩

-- A token file that holds a line break only, and `GET /?token=`.
theorem blank_token_file_opens :
    loadOrCreateToken acceptedIo (.content [newline]) = .ok [] ∧
    requireAuth (fun _ => ()) ⟨[],true⟩ emptyToken = .ok () ∧
    ¬ Guarded (fun _ => ()) [newline] [] := by
  have loaded : loadOrCreateToken acceptedIo (.content [newline]) = .ok [] := by decide
  refine ⟨loaded,by decide,?_⟩
  intro guarded
  obtain ⟨credential,filled,same,_⟩ := guarded.runs emptyToken () (by decide)
  have read : (fromUtf8 [newline]).map Text.trim = some [] := by decide
  rw [read] at same
  exact filled (Option.some.inj same).symm

end AegisHoneypot.DashboardAuth
