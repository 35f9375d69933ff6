import PnfsLattice.Access.Secrecy
import PnfsLattice.Cache.Visible
import PnfsLattice.Catalogue.AllocId
import PnfsLattice.Cluster.Ends
import PnfsLattice.Cluster.Failover
import PnfsLattice.Cluster.Hardlink
import PnfsLattice.Cluster.Migration
import PnfsLattice.Cluster.RenameAtomic
import PnfsLattice.Cluster.RenameLegacy
import PnfsLattice.Cluster.Startup
import PnfsLattice.Deleg.Recall
import PnfsLattice.Grace.Law
import PnfsLattice.Layout.Seqids
import PnfsLattice.Layout.Targets
import PnfsLattice.Layout.Visible
import PnfsLattice.Lease.Contention
import PnfsLattice.Lock.ByteMap
import PnfsLattice.Lock.Rows
import PnfsLattice.Namespace.Data
import PnfsLattice.Namespace.Filehandle
import PnfsLattice.Namespace.Flags
import PnfsLattice.Namespace.Listxattrs
import PnfsLattice.Namespace.Manifest
import PnfsLattice.Namespace.Tree
import PnfsLattice.Open.Share
import PnfsLattice.Open.WriteThrough
import PnfsLattice.ParentTouch.Drain
import PnfsLattice.ParentTouch.Monotone
import PnfsLattice.Prealloc.Unique
import PnfsLattice.Proxy.Discard
import PnfsLattice.Proxy.Extend
import PnfsLattice.Proxy.Flush
import PnfsLattice.Reclaim.GcIndex
import PnfsLattice.Reclaim.Live
import PnfsLattice.Reclaim.WideCreate
import PnfsLattice.Session.Conns
import PnfsLattice.Session.Gss
import PnfsLattice.Session.Owners
import PnfsLattice.Stateid.Kinds
