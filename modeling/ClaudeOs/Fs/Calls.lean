import ClaudeOs.Uaccess
import ClaudeOs.Net.Sockets
import ClaudeOs.Fs.FdTable

/-!
# The calls that make descriptors

`openat`, `pipe2`, `socketpair`, `socket`, `accept4`, `eventfd`, `epoll_create` and `dup`, each with
every step that can fail.  What they reach besides the descriptor table comes as it is: user memory
is a `Space`, the connections are the `Stack` of `Net.Sockets`, and the file system is what its
functions answer.

* `Kernel`, `Machine`  the state a call runs on, and what it is built over;
* `acceptLoop`  the loop of `accept4`, with everything that arrives while it sleeps.
-/

namespace ClaudeOs.Fs.Fd
open Call

/-! ## the state -/

/-- what an open file is; a socket of the network by its number -/
inductive FileBacking where
  | node | pipe | eventFd | socket | inet (id : Nat) | epoll
  deriving DecidableEq, Repr

structure OpenFile where
  backing : FileBacking
  flags : Nat
  path : String
  deriving DecidableEq, Repr

inductive NodeKind where
  | file | dir | symlink (target : String) | fifo
  | fd (owner : Nat) (fd : Int)
  | other
  deriving DecidableEq, Repr

structure Node where
  ino : Nat
  kind : NodeKind
  deriving DecidableEq, Repr

/-- the process and the machine; `σ` is the address space, `φ` the file system -/
structure Kernel (σ φ : Type) where
  fds : FdTable
  /-- every open file made so far; a descriptor's `File` is its place here -/
  files : List OpenFile
  stack : Net.Stack
  mem : σ
  fs : φ

structure Machine (σ φ : Type) where
  space : Space σ
  lookup : String → φ → Except Errno Node × φ
  lookupNofollow : String → φ → Except Errno Node × φ
  create : String → Nat → φ → Except Errno Node × φ
  truncate : Node → φ → Except Errno Unit × φ
  openFifo : Nat → Nat → String → φ → Except Errno Unit × φ
  /-- paths under /proc that stand for other paths -/
  procfsOverride : String → FdTable → List OpenFile → Option String
  /-- paths under /proc that stand for a descriptor of the caller's own -/
  ownDescriptor : String → Option Int
  pid : Nat
  cwd : String
  umask : Nat
  /-- this flag's number is not the same on every machine -/
  oDirectory : Nat
  env : Net.Env
  heldBytes : Nat

namespace Kernel
variable {σ φ : Type}

variable (k : Kernel σ φ)

def setFds (fds : FdTable) : Kernel σ φ := { k with fds := fds }
def setStack (stack : Net.Stack) : Kernel σ φ := { k with stack := stack }
def setMem (mem : σ) : Kernel σ φ := { k with mem := mem }
def setFs (fs : φ) : Kernel σ φ := { k with fs := fs }
def push (file : OpenFile) : Kernel σ φ := { k with files := k.files ++ [file] }

end Kernel

abbrev Sys (σ φ α : Type) : Type := Call Errno (Kernel σ φ) α

def Errno.ofAccess : ClaudeOs.Errno → Errno
  | .EPERM => .EPERM
  | .EINTR => .EINTR
  | .EBADF => .EBADF
  | .ENOMEM => .ENOMEM
  | .EFAULT => .EFAULT
  | .ECHILD => .ECHILD
  | .ENODEV => .ENODEV
  | .EINVAL => .EINVAL
  | .ENAMETOOLONG => .ENAMETOOLONG

def Errno.ofSocket : Net.SocketError → Errno
  | .EADDRNOTAVAIL => .EADDRNOTAVAIL
  | .EADDRINUSE => .EADDRINUSE
  | .EINVAL => .EINVAL
  | .EALREADY => .EALREADY
  | .EISCONN => .EISCONN
  | .ENETUNREACH => .ENETUNREACH
  | .EOPNOTSUPP => .EOPNOTSUPP

/-! ## flags -/

def O_RDONLY : Nat := 0o0
def O_RDWR : Nat := 0o2
def O_ACCMODE : Nat := 0o3
def O_CREAT : Nat := 0o100
def O_EXCL : Nat := 0o200
def O_TRUNC : Nat := 0o1000
def O_NONBLOCK : Nat := 0o4000
def O_CLOEXEC : Nat := 0o2000000
def EFD_NONBLOCK : Nat := 0o4000
def EFD_CLOEXEC : Nat := 0o2000
def EPOLL_CLOEXEC : Nat := 0o2000000
def SOCK_NONBLOCK : Nat := 0o4000
def SOCK_CLOEXEC : Nat := 0o2000000
def SOCK_STREAM : Nat := 1
def SOCK_DGRAM : Nat := 2
def SOCK_SEQPACKET : Nat := 5
def AF_UNIX : Nat := 1
def AF_INET : Nat := 2
def IPPROTO_IP : Nat := 0
def IPPROTO_TCP : Nat := 6
def IPPROTO_UDP : Nat := 17
def AT_FDCWD : Int := -100
def SYMLINK_DEPTH : Nat := 16
def has (flags flag : Nat) : Bool := flags &&& flag != 0

/-! ## paths -/

/-- `fs::normalize` -/
def normalize (cwd path : String) : String :=
  let source := if path.startsWith "/" then path else cwd ++ "/" ++ path
  let parts := (source.splitOn "/").foldl (fun parts part =>
    if part = "" ∨ part = "." then parts
    else if part = ".." then parts.dropLast
    else parts ++ [part]) []
  let out := parts.foldl (fun out part => out ++ "/" ++ part) ""
  if out.isEmpty then "/" else out

def dirOf (path : String) : Option String :=
  let parts := path.splitOn "/"
  if parts.length < 2 then none else some ("/".intercalate parts.dropLast)

def asI32 (x : Int) : Int := (x + 2 ^ 31) % 2 ^ 32 - 2 ^ 31

/-! ## steps -/

section
variable {σ φ α : Type} (M : Machine σ φ)

def user (m : Uaccess.Access σ α) : Sys σ φ α :=
  (Call.lift Kernel.mem (fun mem k => k.setMem mem) m).mapError Errno.ofAccess

def onFs (f : φ → Except Errno α × φ) : Sys σ φ α :=
  tryAct fun k => ((f k.fs).1, k.setFs (f k.fs).2)

def fdsGet (fd : Int) : Sys σ φ File := tryAct fun k => (k.fds.get fd, k)
def makeFile (file : OpenFile) : Sys σ φ File := act fun k => (k.files.length, k.push file)

def dropFile (k : Kernel σ φ) (file : File) : Kernel σ φ :=
  match k.files[file]?.map OpenFile.backing with
  | some (.inet id) => k.setStack (Net.Stack.close M.env k.stack id M.heldBytes)
  | _ => k

/-- another handle on a file given the lowest descriptor -/
def fdsAlloc (file : File) (cloexec : Bool) : Sys σ φ Nat :=
  tryAct fun k => ((k.fds.alloc file cloexec).2, k.setFds (k.fds.alloc file cloexec).1)

/-- the only handle on a file given the lowest descriptor; when there is none the file goes -/
def fdsAllocNew (file : File) (cloexec : Bool) : Sys σ φ Nat :=
  tryAct fun k =>
    match k.fds.alloc file cloexec with
    | (fds, .ok fd) => (.ok fd, k.setFds fds)
    | (fds, .error e) => (.error e, dropFile M (k.setFds fds) file)

def fdsClose (fd : Int) : Sys σ φ Unit := modify fun k => k.setFds (k.fds.close fd).1

def leBytes (n : Nat) : List UInt8 :=
  (List.range 4).map fun i => UInt8.ofNat (n / 2 ^ (8 * i) % 256)

def ofLeBytes (bytes : List UInt8) : Nat := bytes.foldr (fun b n => b.toNat + 256 * n) 0

def writeU32 (addr value : Nat) : Sys σ φ Unit :=
  user (Uaccess.writeBytesIn M.space addr (leBytes value))

def readU32 (addr : Nat) : Sys σ φ Nat :=
  user (Uaccess.readBytesIn M.space addr 4) >>= fun bytes => Pure.pure (ofLeBytes bytes)

/-! ## the calls -/

def dup (fd : Int) : Sys σ φ Nat := fdsGet fd >>= fun file => fdsAlloc file false

def openDescriptor (fd : Int) (flags : Nat) : Sys σ φ Nat :=
  (fdsGet fd).mapError (fun _ => .ENOENT) >>= fun file => fdsAlloc file (has flags O_CLOEXEC)

def decode (bytes : List UInt8) : Option String := String.fromUTF8? ⟨bytes.toArray⟩

def resolveStr (dirfd : Int) (path : String) : Sys σ φ String :=
  if path.startsWith "/" then Pure.pure (normalize "/" path)
  else if dirfd = AT_FDCWD then Pure.pure (normalize M.cwd path)
  else
    fdsGet (asI32 dirfd) >>= fun file => get >>= fun k =>
      let base := (k.files[file]?.map OpenFile.path).getD ""
      if base.isEmpty then fail .EBADF else Pure.pure (normalize base path)

def resolveAt (dirfd : Int) (pathAddr : Nat) : Sys σ φ String :=
  user (Uaccess.readCstr M.space (fun bytes => (decode bytes).isSome) pathAddr 4096) >>= fun bytes =>
    resolveStr M dirfd ((decode bytes).getD "")

def finalLinkTarget (path : String) : Sys σ φ (Option String) :=
  (onFs (M.lookupNofollow path)).attempt >>= fun found =>
    match found with
    | .ok ⟨_, .symlink target⟩ =>
      Pure.pure ((dirOf path).map fun dir => normalize (if dir.isEmpty then "/" else dir) target)
    | _ => Pure.pure none

inductive Target where
  | descriptor (fd : Int)
  | node (path : String) (node : Node)
  | missing (path : String)

/-- the loop at the start of `openat` -/
def findTarget : Nat → String → Sys σ φ Target
  | 0, path => Pure.pure (.missing path)
  | rounds + 1, path =>
    get >>= fun k =>
      let path := (M.procfsOverride path k.fds k.files).getD path
      match M.ownDescriptor path with
      | some fd => Pure.pure (.descriptor fd)
      | none =>
        (onFs (M.lookup path)).attempt >>= fun found =>
          match found with
          | .ok node => Pure.pure (.node path node)
          | .error .ENOENT =>
            finalLinkTarget M path >>= fun target =>
              match target with
              | some target => findTarget rounds target
              | none => Pure.pure (.missing path)
          | .error e => fail e

def openNode (path : String) (node : Node) (flags : Nat) : Sys σ φ Nat :=
  match node.kind with
  | .fd owner fd => if owner = M.pid then openDescriptor fd flags else fail .EACCES
  | kind =>
    if has flags M.oDirectory && kind != .dir then fail .ENOTDIR
    else if kind = .dir ∧ flags &&& O_ACCMODE ≠ O_RDONLY then fail .EISDIR
    else
      (if has flags O_TRUNC && kind != .dir then onFs (M.truncate node) else Pure.pure ())
        >>= fun _ =>
        (if kind = .fifo then
          onFs (M.openFifo node.ino flags path) >>= fun _ => makeFile ⟨.pipe, flags, path⟩
        else makeFile ⟨.node, flags, path⟩) >>= fun file =>
          fdsAllocNew M file (has flags O_CLOEXEC)

def openat (dirfd : Int) (pathAddr flags mode : Nat) : Sys σ φ Nat :=
  resolveAt M dirfd pathAddr >>= fun path =>
    findTarget M SYMLINK_DEPTH path >>= fun target =>
      match target with
      | .descriptor fd => openDescriptor fd flags
      | .node path node =>
        if has flags O_EXCL && has flags O_CREAT then fail .EEXIST else openNode M path node flags
      | .missing path =>
        if has flags O_CREAT then
          onFs (M.create path (mode &&& (M.umask ^^^ (2 ^ 32 - 1)))) >>= fun node =>
            openNode M path node flags
        else fail .ENOENT

/-- the end of `pipe2` and of `socketpair`: two descriptors, with their numbers written at `out` -/
def installPair (first second : File) (cloexec : Bool) (out : Nat) : Sys σ φ Nat :=
  fdsAllocNew M first cloexec >>= fun firstFd =>
    (fdsAllocNew M second cloexec).attempt >>= fun installed =>
      match installed with
      | .error e => fdsClose firstFd >>= fun _ => fail e
      | .ok secondFd =>
        writeU32 M out firstFd >>= fun _ => addOk out 4 >>= fun _ =>
          writeU32 M (out + 4) secondFd >>= fun _ => Pure.pure 0

def pipe2 (out flags : Nat) : Sys σ φ Nat :=
  makeFile ⟨.pipe, flags &&& (O_CLOEXEC ^^^ (2 ^ 32 - 1)), "pipe:"⟩ >>= fun readEnd =>
    makeFile ⟨.pipe, flags &&& (O_CLOEXEC ^^^ (2 ^ 32 - 1)), "pipe:"⟩ >>= fun writeEnd =>
      installPair M readEnd writeEnd (has flags O_CLOEXEC) out

def socketpair (domain kind out : Nat) : Sys σ φ Nat :=
  if domain ≠ AF_UNIX then fail .EAFNOSUPPORT
  else if kind &&& 0xF ≠ SOCK_STREAM ∧ kind &&& 0xF ≠ SOCK_SEQPACKET then fail .EPROTONOSUPPORT
  else
    let flags := O_RDWR ||| if has kind SOCK_NONBLOCK then O_NONBLOCK else 0
    makeFile ⟨.socket, flags, "socket:[unix]"⟩ >>= fun one =>
      makeFile ⟨.socket, flags, "socket:[unix]"⟩ >>= fun two =>
        installPair M one two (has kind SOCK_CLOEXEC) out

def makeInet (id : Nat) (nonblock : Bool) : Sys σ φ File :=
  makeFile ⟨.inet id, O_RDWR ||| if nonblock then O_NONBLOCK else 0, "socket:[inet]"⟩

def socket (domain kind protocol : Nat) : Sys σ φ Nat :=
  if domain ≠ AF_INET then fail .EAFNOSUPPORT
  else if kind &&& 0xF ≠ SOCK_STREAM ∧ kind &&& 0xF ≠ SOCK_DGRAM then fail .EPROTONOSUPPORT
  else
    let stream := decide (kind &&& 0xF = SOCK_STREAM)
    if protocol ≠ IPPROTO_IP ∧ protocol ≠ (if stream then IPPROTO_TCP else IPPROTO_UDP) then
      fail .EPROTONOSUPPORT
    else
      act (fun k => (k.stack.socks.length, k.setStack (k.stack.push (.new stream M.heldBytes))))
        >>= fun id => makeInet id (has kind SOCK_NONBLOCK) >>= fun file =>
          fdsAllocNew M file (has kind SOCK_CLOEXEC)

def eventfd (flags : Nat) : Sys σ φ Nat :=
  makeFile ⟨.eventFd, O_RDWR ||| if has flags EFD_NONBLOCK then O_NONBLOCK else 0,
    "anon_inode:[eventfd]"⟩ >>= fun file => fdsAllocNew M file (has flags EFD_CLOEXEC)

def epollCreate (flags : Nat) : Sys σ φ Nat :=
  makeFile ⟨.epoll, 0, "anon_inode:[eventpoll]"⟩ >>= fun file =>
    fdsAllocNew M file (has flags EPOLL_CLOEXEC)

/-! ### accept4 -/

/-- one turn of the loop: the connections' own changes before it, and whether a signal is there -/
structure Round where
  before : List Net.Stack.Action
  signal : Bool

inductive Taken where
  | asleep
  | failed (e : Errno)
  | took (child : Nat)
  deriving DecidableEq

/-- the loop of `accept4` on the connections; `asleep` when the rounds end and it has not -/
def acceptLoop (id : Nat) (nonblock : Bool) : List Round → Net.Stack → Taken × Net.Stack
  | [], w => (.asleep, w)
  | round :: rounds, w =>
    match (round.before.foldl Net.Stack.step w).acceptReady id with
    | (w, .error e) => (.failed (.ofSocket e), w)
    | (w, .ok (some child)) => (.took child, w)
    | (w, .ok none) =>
      if nonblock then (.failed .EAGAIN, w)
      else if round.signal then (.failed .EINTR, w)
      else acceptLoop id nonblock rounds w

/-- the connections as each `accept_ready` of the loop found them and left them -/
def acceptSteps (id : Nat) (nonblock : Bool) : List Round → Net.Stack → List (Net.Stack × Net.Stack)
  | [], _ => []
  | round :: rounds, w =>
    let found := round.before.foldl Net.Stack.step w
    (found, (found.acceptReady id).1) ::
      match found.acceptReady id with
      | (w, .ok none) => if nonblock || round.signal then [] else acceptSteps id nonblock rounds w
      | _ => []

def peerEndpoint (w : Net.Stack) (child : Nat) : Net.Endpoint :=
  match w.socks[child]? with
  | some s => if s.tcb.state.isSynchronised then s.remote else .unspecified
  | none => .unspecified

def sockaddrIn (endpoint : Net.Endpoint) : List UInt8 :=
  let byte (n i : Nat) : UInt8 := UInt8.ofNat (n / 2 ^ (8 * i) % 256)
  let port := endpoint.port.toNat
  let address := endpoint.address.toNat
  [2, 0, byte port 1, byte port 0, byte address 3, byte address 2, byte address 1, byte address 0] ++
    List.replicate 8 0

def putName (name : List UInt8) (addr roomAddr : Nat) : Sys σ φ Unit :=
  readU32 M roomAddr >>= fun room =>
    if 2 ^ 31 ≤ room then fail .EINVAL
    else
      (if 0 < min room name.length then
        user (Uaccess.writeBytesIn M.space addr (name.take (min room name.length)))
      else Pure.pure ()) >>= fun _ => writeU32 M roomAddr name.length

/-- what `accept4` does with the connection it took -/
def installChild (child addr addrlen flags : Nat) : Sys σ φ Nat :=
  get >>= fun k =>
    makeInet child (has flags SOCK_NONBLOCK) >>= fun file =>
      (if addr ≠ 0 then putName M (sockaddrIn (peerEndpoint k.stack child)) addr addrlen
        else Pure.pure ()).attempt >>= fun named =>
        match named with
        | .error e => modify (dropFile M · file) >>= fun _ => fail e
        | .ok _ => fdsAllocNew M file (has flags SOCK_CLOEXEC)

/-- `accept4` on the socket `id`; nothing when it still sleeps after the rounds -/
def acceptOn (id : Nat) (nonblock : Bool) (addr addrlen flags : Nat) (rounds : List Round) :
    Sys σ φ (Option Nat) :=
  act (fun k => ((acceptLoop id nonblock rounds k.stack).1,
      k.setStack (acceptLoop id nonblock rounds k.stack).2)) >>= fun taken =>
    match taken with
    | .asleep => Pure.pure none
    | .failed e => fail e
    | .took child => installChild M child addr addrlen flags >>= fun fd => Pure.pure (some fd)

def accept4 (fd : Int) (addr addrlen flags : Nat) (rounds : List Round) : Sys σ φ (Option Nat) :=
  fdsGet fd >>= fun file => get >>= fun k =>
    match k.files[file]? with
    | some ⟨.inet id, fileFlags, _⟩ =>
      acceptOn M id (has fileFlags O_NONBLOCK) addr addrlen flags rounds
    | some ⟨.socket, _, _⟩ => fail .EOPNOTSUPP
    | _ => fail .ENOTSOCK

end

inductive Syscall where
  | openat (dirfd : Int) (pathAddr flags mode : Nat)
  | pipe2 (out flags : Nat)
  | socketpair (domain kind out : Nat)
  | socket (domain kind protocol : Nat)
  | accept4 (fd : Int) (addr addrlen flags : Nat) (rounds : List Round)
  | eventfd (flags : Nat)
  | epollCreate (flags : Nat)
  | dup (fd : Int)

def Syscall.run {σ φ : Type} (M : Machine σ φ) : Syscall → Sys σ φ (Option Nat)
  | .openat dirfd pathAddr flags mode => some <$> Fd.openat M dirfd pathAddr flags mode
  | .pipe2 out flags => some <$> Fd.pipe2 M out flags
  | .socketpair domain kind out => some <$> Fd.socketpair M domain kind out
  | .socket domain kind protocol => some <$> Fd.socket M domain kind protocol
  | .accept4 fd addr addrlen flags rounds => Fd.accept4 M fd addr addrlen flags rounds
  | .eventfd flags => some <$> Fd.eventfd M flags
  | .epollCreate flags => some <$> Fd.epollCreate M flags
  | .dup fd => some <$> Fd.dup fd

end ClaudeOs.Fs.Fd
