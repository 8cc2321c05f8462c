import RangeStore.Database.Basic
import RangeStore.Storage.Directory
import RangeStore.Tree.Walk
import RangeStore.Proofs.Tuple.Bound
import RangeStore.Proofs.Tree.Position
import RangeStore.Proofs.Tree.Runs
import RangeStore.Proofs.Tree.Search
import RangeStore.Proofs.Storage.Lawful
import RangeStore.Proofs.Tuple.RoundTrip
import RangeStore.Proofs.Tree.BulkLoad
import RangeStore.Proofs.Schema.Row
import RangeStore.Proofs.Scan.KeyLayout
import RangeStore.Proofs.Database.Content
import RangeStore.Proofs.Tree.Window
import RangeStore.Proofs.Scan.Rows
import RangeStore.Proofs.Database.Build
import RangeStore.Proofs.Database.Scan
import RangeStore.Proofs.Page.Region
import RangeStore.Proofs.Tree.Image
import RangeStore.Proofs.Storage.PageFile
import RangeStore.Proofs.Tuple.Canonical
import RangeStore.Proofs.Tree.Balance
import RangeStore.Proofs.Tree.Packing
import RangeStore.Proofs.Storage.Serial
import RangeStore.Proofs.Page.Superblock
import RangeStore.Proofs.Tree.Lockstep
import RangeStore.Proofs.Storage.Mirror
import RangeStore.Proofs.Schema.Sound
import RangeStore.Proofs.Schema.Catalog
import RangeStore.Proofs.Schema.Load
import RangeStore.Proofs.Database.Tables
import RangeStore.Proofs.Database.Alike
import RangeStore.Proofs.Database.Reopen
import RangeStore.Proofs.Tree.Access
import RangeStore.Proofs.Tree.Stepping
import RangeStore.Proofs.Tree.Damage
import RangeStore.Proofs.Tree.Ending
import RangeStore.Proofs.Database.Opening
import RangeStore.Proofs.Database.Names
import RangeStore.Proofs.Storage.Fetching
import RangeStore.Proofs.Tree.Outages
import RangeStore.Proofs.Scan.Outages
import RangeStore.Proofs.Database.Outages
import RangeStore.Proofs.Storage.History
import RangeStore.Proofs.Database.Failure
import RangeStore.Proofs.Database.InputOrder
import RangeStore.Proofs.Scan.Reversal
import RangeStore.Proofs.Page.Checksum
import RangeStore.Proofs.Page.Burst
import RangeStore.Proofs.Storage.Burst
import RangeStore.Proofs.Database.Duplicates
import RangeStore.Proofs.Tree.Writing
import RangeStore.Proofs.Tree.Drafting
import RangeStore.Proofs.Tree.Faults
import RangeStore.Proofs.Tree.LoadErrors
import RangeStore.Proofs.Database.Lookup
import RangeStore.Proofs.Scan.Entries
import RangeStore.Proofs.Schema.Whole
import RangeStore.Proofs.Scan.Misses
import RangeStore.Proofs.Schema.Draft
import RangeStore.Proofs.Storage.Allocation
import RangeStore.Proofs.Scan.Setup
import RangeStore.Proofs.Storage.Positions
import RangeStore.Proofs.Scan.Filling
import RangeStore.Proofs.Tree.Lookup
