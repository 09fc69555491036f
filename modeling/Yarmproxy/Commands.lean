import Yarmproxy.ClientConn
import Yarmproxy.RedisDelCommand
import Yarmproxy.RedisMgetCommand
import Yarmproxy.SingleCommand

/-! # The commands of a connection

The command classes together: what `CreateCommand` constructs and the handlers of each. -/
namespace Yarmproxy

variable {ε : Type}

/-- `ErrorCommand` and `StatsCommand`, which answer without a backend. -/
inductive LocalKind where
  | error | stats
  deriving DecidableEq, Repr

structure LocalCommand where
  kind : LocalKind
  replyMessage : Bytes
  deriving DecidableEq, Repr

namespace LocalCommand

def startWriteReply (x : Ctx LocalCommand) : Ctx LocalCommand :=
  x.emit (.writeReply x.cmd.replyMessage none)

def startWriteQuery (x : Ctx LocalCommand) : Ctx LocalCommand × Bool :=
  (if x.first then startWriteReply x else x, false)

/-- After an error the connection is closed; neither class looks at the result. -/
def onWriteReplyFinished (backend : Option ℕ) (x : Ctx LocalCommand) : Ctx LocalCommand :=
  if backend.isSome then x.emit .assertFailed
  else match x.cmd.kind with
    | .error => x.emit .abort
    | .stats => x.emit .rotate

def handlers : Handlers ε LocalCommand where
  backend _ _ := none
  setBackend c _ _ := c
  startWriteQuery := startWriteQuery
  continueWriteQuery x := (x.emit .assertFailed, false)
  parseUnparsedPart x := (x, true)
  processUnparsedPart x := (x, true)
  startWriteReply := startWriteReply
  onWriteQueryFinished _ _ x := x.emit .assertFailed
  onBackendReplyReceived _ _ x := x.emit .assertFailed
  onWriteReplyFinished backend _ := onWriteReplyFinished backend
  queryParsingComplete _ := true
  queryRecvComplete _ := true

end LocalCommand

/-- A command of any class; the two that allocate as they go keep their part of the pool. -/
inductive AnyCommand (ε : Type) where
  | local_ (c : LocalCommand)
  | single (c : SingleCommand ε)
  | memcGet (c : MemcGetCommand ε)
  | redisMget (c : RedisMgetCommand ε)
  | redisMset (pool : Pool) (c : RedisMsetCommand ε)
  | redisDel (pool : Pool) (c : RedisDelCommand ε)

def Ctx.lift {C D : Type} (wrap : D → C) (d : D) (x : Ctx C) (f : Ctx D → Ctx D) : Ctx C :=
  let y := f ⟨x.buffer, x.first, d, x.effects⟩
  ⟨y.buffer, y.first, wrap y.cmd, y.effects⟩

def Ctx.liftFlag {C D : Type} (wrap : D → C) (d : D) (x : Ctx C) (f : Ctx D → Ctx D × Bool) :
    Ctx C × Bool :=
  let (y, flag) := f ⟨x.buffer, x.first, d, x.effects⟩
  (⟨y.buffer, y.first, wrap y.cmd, y.effects⟩, flag)

namespace AnyCommand

/-- The key locator, the pool of the `k`-th command and the text of `yarmstats`. -/
structure Env (ε : Type) where
  locate : ProtocolType → Bytes → ε
  pool : ℕ → Pool
  stats : ℕ → ProtocolType → Bytes

/-- The key of a `MemcBasicCommand`. -/
def memcBasicKey (data : Ptr) : Option Bytes := do
  let m := data.rest
  let p ← skipPast (ch ' ') m
  let n ← (m.drop (p + 1)).findIdx? fun c => c == ch ' ' || c == ch '\r'
  some ((m.drop p).take (n + 1))

section
variable [DecidableEq ε] [Inhabited ε] (env : Env ε)

def newSingle (k : ℕ) (kind : SingleKind) (unparsedBulks : ℕ) (key : Bytes) : AnyCommand ε :=
  .single (.new kind unparsedBulks ((env.pool k).allocate 0 (env.locate kind.protocol key)))

def construct (k : ℕ) (buffer : ReadBuffer) : Created → Option (ReadBuffer × AnyCommand ε)
  | .redisBasic ba => do
    let key ← (← ba.items[1]?).payload
    some (buffer, newSingle env k .redisBasic 0 key)
  | .redisSet ba => do
    let key ← (← ba.items[1]?).payload
    some (buffer, newSingle env k .redisSet ba.absentBulks key)
  | .redisMset ba => do
    let (buffer, c) ← RedisMsetCommand.new (env.locate .redis) (env.pool k) buffer ba
    some (buffer, .redisMset (env.pool k) c)
  | .redisMget ba => do
    let (buffer, c) ← RedisMgetCommand.new (env.locate .redis) (env.pool k) buffer ba
    some (buffer, .redisMget c)
  | .redisDel ba => do
    let (buffer, c) ← RedisDelCommand.new (env.locate .redis) (env.pool k) buffer ba
    some (buffer, .redisDel (env.pool k) c)
  | .memcGet data size => do
    let (buffer, c) ← MemcGetCommand.new (env.locate .memcached) (env.pool k) buffer data size
    some (buffer, .memcGet c)
  | .memcSet key => some (buffer, newSingle env k .memcSet 0 key)
  | .memcBasic data => do
    let key ← memcBasicKey data
    some (buffer, newSingle env k .memcBasic 0 key)
  | .stats protocol => some (buffer, .local_ ⟨.stats, env.stats k protocol⟩)
  | .error reply => some (buffer, .local_ ⟨.error, reply⟩)

def family : Family ε (AnyCommand ε) where
  backend
    | .local_ c, b => LocalCommand.handlers.backend c b
    | .single c, b => SingleCommand.handlers.backend c b
    | .memcGet c, b => MemcGetCommand.handlers.backend c b
    | .redisMget c, b => RedisMgetCommand.handlers.backend c b
    | .redisMset pool c, b => (RedisMsetCommand.handlers (env.locate .redis) pool).backend c b
    | .redisDel pool c, b => (RedisDelCommand.handlers (env.locate .redis) pool).backend c b
  setBackend
    | .local_ c, _, _ => .local_ c
    | .single c, b, k => .single (SingleCommand.handlers.setBackend c b k)
    | .memcGet c, b, k => .memcGet (MemcGetCommand.handlers.setBackend c b k)
    | .redisMget c, b, k => .redisMget (RedisMgetCommand.handlers.setBackend c b k)
    | .redisMset pool c, b, k => .redisMset pool (c.setBackend b k)
    | .redisDel pool c, b, k => .redisDel pool (c.setBackend b k)
  startWriteQuery x :=
    match x.cmd with
    | .local_ c => x.liftFlag .local_ c LocalCommand.startWriteQuery
    | .single c => x.liftFlag .single c SingleCommand.startWriteQuery
    | .memcGet c => x.liftFlag .memcGet c MemcGetCommand.startWriteQuery
    | .redisMget c => x.liftFlag .redisMget c RedisMgetCommand.startWriteQuery
    | .redisMset pool c => x.liftFlag (.redisMset pool) c RedisMsetCommand.startWriteQuery
    | .redisDel pool c => x.liftFlag (.redisDel pool) c RedisDelCommand.startWriteQuery
  continueWriteQuery x :=
    match x.cmd with
    | .single c => x.liftFlag .single c SingleCommand.continueWriteQuery
    | .redisMset pool c => x.liftFlag (.redisMset pool) c RedisMsetCommand.continueWriteQuery
    | _ => (x.emit .assertFailed, false)
  parseUnparsedPart x :=
    match x.cmd with
    | .single c => x.liftFlag .single c SingleCommand.parseUnparsedPart
    | _ => (x, true)
  processUnparsedPart x :=
    match x.cmd with
    | .redisMset pool c =>
      x.liftFlag (.redisMset pool) c (RedisMsetCommand.processUnparsedPart (env.locate .redis) pool)
    | .redisDel pool c =>
      x.liftFlag (.redisDel pool) c (RedisDelCommand.processUnparsedPart (env.locate .redis) pool)
    | _ => (x, true)
  startWriteReply x :=
    match x.cmd with
    | .local_ c => x.lift .local_ c LocalCommand.startWriteReply
    | .single c => x.lift .single c SingleCommand.startWriteReply
    | .memcGet c => x.lift .memcGet c MemcGetCommand.startWriteReply
    | .redisMget c => x.lift .redisMget c RedisMgetCommand.startWriteReply
    | .redisMset pool c => x.lift (.redisMset pool) c RedisMsetCommand.startWriteReply
    | .redisDel pool c => x.lift (.redisDel pool) c RedisDelCommand.startWriteReply
  onWriteQueryFinished b ec x :=
    match x.cmd with
    | .local_ _ => x.emit .assertFailed
    | .single c => x.lift .single c (SingleCommand.onWriteQueryFinished ec)
    | .memcGet c => x.lift .memcGet c (MemcGetCommand.onWriteQueryFinished b ec)
    | .redisMget c => x.lift .redisMget c (RedisMgetCommand.onWriteQueryFinished b ec)
    | .redisMset pool c => x.lift (.redisMset pool) c (RedisMsetCommand.onWriteQueryFinished b ec)
    | .redisDel pool c => x.lift (.redisDel pool) c (RedisDelCommand.onWriteQueryFinished b ec)
  onBackendReplyReceived b ec x :=
    match x.cmd with
    | .local_ _ => x.emit .assertFailed
    | .single c => x.lift .single c (SingleCommand.onBackendReplyReceived ec)
    | .memcGet c => x.lift .memcGet c (MemcGetCommand.onBackendReplyReceived b ec)
    | .redisMget c => x.lift .redisMget c (RedisMgetCommand.onBackendReplyReceived b ec)
    | .redisMset pool c => x.lift (.redisMset pool) c (RedisMsetCommand.onBackendReplyReceived b ec)
    | .redisDel pool c => x.lift (.redisDel pool) c (RedisDelCommand.onBackendReplyReceived b ec)
  onWriteReplyFinished b ec x :=
    match x.cmd with
    | .local_ c => x.lift .local_ c (LocalCommand.onWriteReplyFinished b)
    | .single c => x.lift .single c (SingleCommand.onWriteReplyFinished ec)
    | .memcGet c => x.lift .memcGet c (MemcGetCommand.handlers.onWriteReplyFinished b ec)
    | .redisMget c => x.lift .redisMget c (RedisMgetCommand.onWriteReplyFinished b ec)
    | .redisMset pool c => x.lift (.redisMset pool) c
        ((RedisMsetCommand.handlers (env.locate .redis) pool).onWriteReplyFinished b ec)
    | .redisDel pool c => x.lift (.redisDel pool) c
        ((RedisDelCommand.handlers (env.locate .redis) pool).onWriteReplyFinished b ec)
  queryParsingComplete
    | .single c => c.queryParsingComplete
    | .redisMset _ c => c.queryParsingComplete
    | .redisDel _ c => c.queryParsingComplete
    | _ => true
  queryRecvComplete
    | .single c => c.queryRecvComplete
    | .redisMset _ c => c.queryRecvComplete
    | .redisDel _ c => c.queryRecvComplete
    | _ => true
  construct := construct env

end
end AnyCommand
end Yarmproxy
