import TSpider.Lib.Run
import TSpider.Lib.Snap
import TSpider.Lib.Allocator
import TSpider.Lib.Loop
import TSpider.Lib.Heap
import TSpider.Lib.Bag
import TSpider.Lib.TopN
import TSpider.AutoInc.Basic
import TSpider.AutoInc.Steps
import TSpider.AutoInc.Residue
import TSpider.AutoInc.Unique
import TSpider.AutoInc.Rows
import TSpider.AutoInc.Versions
import TSpider.AutoInc.Stored
import TSpider.AutoInc.Explicit
import TSpider.AutoInc.Rounding
import TSpider.Xa.State
import TSpider.Xa.Db
import TSpider.Xa.Trx
import TSpider.Xa.Frame
import TSpider.Xa.Spec
import TSpider.Xa.Prepare
import TSpider.Xa.Atomic
import TSpider.Xa.Commit
import TSpider.Xa.Report
import TSpider.Xa.LogAhead
import TSpider.Xa.InDoubt
import TSpider.Xa.Session
import TSpider.Xa.Release
import TSpider.Xa.Ends
import TSpider.Xa.Reach
import TSpider.Xa.Holding
import TSpider.Xa.Settles
import TSpider.Xa.Link
import TSpider.Xa.Finish
import TSpider.Xa.Pool
import TSpider.Xa.Gtrid
import TSpider.Limit.Clause
import TSpider.Limit.Scan
import TSpider.Limit.Counted
import TSpider.Limit.Stream
import TSpider.Limit.Exact
import TSpider.Limit.Lost
import TSpider.Limit.Pushdown
import TSpider.Limit.Paging
import TSpider.Merge.Ordered
import TSpider.Merge.Sorted
import TSpider.Merge.Ranges
import TSpider.Merge.RangeSorted
import TSpider.Merge.RangeRead
import TSpider.Cond.Literal
import TSpider.Cond.Item
import TSpider.Cond.Parse
import TSpider.Cond.Reads
import TSpider.Cond.Meaning
import TSpider.Cond.Roundtrip
import TSpider.Cond.Sql
import TSpider.Cond.Keep
import TSpider.Cond.Drop
import TSpider.Cond.Lose
import TSpider.Group.Fields
import TSpider.Group.Walk
import TSpider.Group.Columns
import TSpider.Join.Clause
import TSpider.Flush.Tables
import TSpider.Flush.Steps
import TSpider.Flush.Ddl
import TSpider.Flush.Prompt
import TSpider.Literal.Lexer
import TSpider.Literal.Roundtrip
import TSpider.Pool.Servers
import TSpider.Pool.Keys
import TSpider.Pool.Stale
import TSpider.Pool.Count
import TSpider.Pool.Queue
import TSpider.Pool.Attached
import TSpider.Lib.WriteBehind
import TSpider.Lib.Bytes
import TSpider.Lib.Buffer
import TSpider.Lib.Crc
import TSpider.Remote.Session
import TSpider.Remote.Agree
import TSpider.Ddl.Forward
import TSpider.Ddl.Names
import TSpider.Agg.Item
import TSpider.Agg.Loops
import TSpider.Agg.Merge
import TSpider.Dml.Direct
import TSpider.Dml.Bulk
import TSpider.Shard.OneShard
import TSpider.Prune.Tree
import TSpider.Prune.Find
import TSpider.Prune.Frame
import TSpider.Prune.Sound
import TSpider.Prune.OuterJoin
import TSpider.Limit.Seek
import TSpider.Limit.SeekExact
import TSpider.Limit.Order
import TSpider.Limit.Window
import TSpider.Limit.Options
import TSpider.Limit.Transparent
import TSpider.Range.Keys
import TSpider.Range.Kept
import TSpider.Binlog.Event
import TSpider.Binlog.Convert
import TSpider.Binlog.Damaged
import TSpider.Connect.Params
import TSpider.Connect.Parse
import TSpider.Connect.Quoted
import TSpider.Connect.Precedence
import TSpider.Lib.BitSet
import TSpider.Mdl.Key
import TSpider.Mdl.Types
import TSpider.Mdl.Find
import TSpider.Mdl.Switch
import TSpider.Binlog.Checked
import TSpider.Mysys.Queue
import TSpider.Lib.Search
import TSpider.Partition.Range
import TSpider.Partition.Hash
