import DemandFlow.Bench
import DemandFlow.Broker.State
import DemandFlow.Broker.Waiting
import DemandFlow.Cli
import DemandFlow.Clock
import DemandFlow.Consumer.Continuous
import DemandFlow.Consumer.Fetch
import DemandFlow.Consumer.Refill
import DemandFlow.Count
import DemandFlow.Counters
import DemandFlow.Delivery
import DemandFlow.Demand
import DemandFlow.Demo
import DemandFlow.Exchange.Basic
import DemandFlow.Exchange.Call
import DemandFlow.Exchange.Consume
import DemandFlow.Exchange.Post
import DemandFlow.Exchange.Run
import DemandFlow.Exchange.State
import DemandFlow.Exchange.Subscribe
import DemandFlow.Exchange.Transport
import DemandFlow.Exchange.Work
import DemandFlow.Failure
import DemandFlow.Feed
import DemandFlow.Fifo
import DemandFlow.Frame
import DemandFlow.Frame.Disposition
import DemandFlow.Frame.Headers
import DemandFlow.Intake
import DemandFlow.Journal
import DemandFlow.Json.Number
import DemandFlow.Json.Scan
import DemandFlow.Json.Text
import DemandFlow.Log
import DemandFlow.Main
import DemandFlow.Monitor
import DemandFlow.Options
import DemandFlow.Proofs.Accounts.Agreement
import DemandFlow.Proofs.Accounts.Balance
import DemandFlow.Proofs.Accounts.Entries
import DemandFlow.Proofs.Accounts.Exhausted
import DemandFlow.Proofs.Accounts.Queue
import DemandFlow.Proofs.Accounts.Run
import DemandFlow.Proofs.Accounts.Steps
import DemandFlow.Proofs.Broker.Allotment
import DemandFlow.Proofs.Broker.Books
import DemandFlow.Proofs.Broker.DeadFeed
import DemandFlow.Proofs.Broker.Delivery
import DemandFlow.Proofs.Broker.History
import DemandFlow.Proofs.Broker.NoWait
import DemandFlow.Proofs.Broker.Owed
import DemandFlow.Proofs.Broker.Portion
import DemandFlow.Proofs.Broker.Settlement
import DemandFlow.Proofs.Broker.Shape
import DemandFlow.Proofs.Broker.Steps
import DemandFlow.Proofs.Broker.Timers
import DemandFlow.Proofs.Broker.Wasted
import DemandFlow.Proofs.Broker.WorkOff
import DemandFlow.Proofs.Collect.Agreement
import DemandFlow.Proofs.Collect.Arrivals
import DemandFlow.Proofs.Collect.Calls
import DemandFlow.Proofs.Collect.Gathering
import DemandFlow.Proofs.Collect.Issued
import DemandFlow.Proofs.Collect.Over
import DemandFlow.Proofs.Collect.Reserved
import DemandFlow.Proofs.Collect.Turns
import DemandFlow.Proofs.Consume.Backlog
import DemandFlow.Proofs.Consume.Budget
import DemandFlow.Proofs.Consume.Count
import DemandFlow.Proofs.Consume.Flow
import DemandFlow.Proofs.Consume.Order
import DemandFlow.Proofs.Consume.Reading
import DemandFlow.Proofs.Consume.Rest
import DemandFlow.Proofs.Consume.Serve
import DemandFlow.Proofs.Consume.Simulation
import DemandFlow.Proofs.Consume.Turns
import DemandFlow.Proofs.Consume.Worker
import DemandFlow.Proofs.Consume.World
import DemandFlow.Proofs.Demand.Totals
import DemandFlow.Proofs.Demand.Window
import DemandFlow.Proofs.Demand.Withdrawal
import DemandFlow.Proofs.Drain.Complete
import DemandFlow.Proofs.Drain.InTime
import DemandFlow.Proofs.Drain.Ledger
import DemandFlow.Proofs.Drain.Life
import DemandFlow.Proofs.Drain.Waiter
import DemandFlow.Proofs.Exchange.Core
import DemandFlow.Proofs.Exchange.Desk
import DemandFlow.Proofs.Exchange.Events
import DemandFlow.Proofs.Exchange.Free
import DemandFlow.Proofs.Exchange.Handed
import DemandFlow.Proofs.Exchange.Motion
import DemandFlow.Proofs.Exchange.Moves
import DemandFlow.Proofs.Exchange.Queued
import DemandFlow.Proofs.Exchange.Reached
import DemandFlow.Proofs.Exchange.Roster
import DemandFlow.Proofs.Exchange.Turns
import DemandFlow.Proofs.Exchange.Views
import DemandFlow.Proofs.Exchange.Withdrawal
import DemandFlow.Proofs.Exchange.Works
import DemandFlow.Proofs.Fetch.Arrival
import DemandFlow.Proofs.Fetch.Batch
import DemandFlow.Proofs.Fetch.Caller
import DemandFlow.Proofs.Fetch.Course
import DemandFlow.Proofs.Fetch.Descent
import DemandFlow.Proofs.Fetch.Errand
import DemandFlow.Proofs.Fetch.Hosts
import DemandFlow.Proofs.Fetch.Opening
import DemandFlow.Proofs.Fetch.Runs
import DemandFlow.Proofs.Fetch.Schedule
import DemandFlow.Proofs.Fetch.Tasks
import DemandFlow.Proofs.Fetch.Turns
import DemandFlow.Proofs.Frame.Handover
import DemandFlow.Proofs.Frame.Kinds
import DemandFlow.Proofs.Frame.PendingCounts
import DemandFlow.Proofs.Json.Reading
import DemandFlow.Proofs.Lane.Account
import DemandFlow.Proofs.Lane.Acts
import DemandFlow.Proofs.Lane.Calls
import DemandFlow.Proofs.Lane.Endings
import DemandFlow.Proofs.Lane.Moves
import DemandFlow.Proofs.Lane.Owner
import DemandFlow.Proofs.Lane.Reach
import DemandFlow.Proofs.Lane.Run
import DemandFlow.Proofs.Lane.Since
import DemandFlow.Proofs.Lane.Transport
import DemandFlow.Proofs.Lane.Undone
import DemandFlow.Proofs.Lane.Work
import DemandFlow.Proofs.Options.Building
import DemandFlow.Proofs.Pace.Alone
import DemandFlow.Proofs.Pace.Bound
import DemandFlow.Proofs.Pace.Broker
import DemandFlow.Proofs.Pace.Instant
import DemandFlow.Proofs.Pace.Requests
import DemandFlow.Proofs.Pace.Toll
import DemandFlow.Proofs.Pull.RoundTrip
import DemandFlow.Proofs.Read.Manual
import DemandFlow.Proofs.Read.Pipeline
import DemandFlow.Proofs.Refill.Course
import DemandFlow.Proofs.Refill.Dealings
import DemandFlow.Proofs.Refill.Plan
import DemandFlow.Proofs.Refill.Schedule
import DemandFlow.Proofs.Silence.Ages
import DemandFlow.Proofs.Silence.Armed
import DemandFlow.Proofs.Silence.Beats
import DemandFlow.Proofs.Silence.Chronicle
import DemandFlow.Proofs.Silence.Episodes
import DemandFlow.Proofs.Silence.Live
import DemandFlow.Proofs.Silence.Pipe
import DemandFlow.Proofs.Silence.Prompt
import DemandFlow.Proofs.Silence.Punctual
import DemandFlow.Proofs.Silence.Serving
import DemandFlow.Proofs.Silence.Tended
import DemandFlow.Proofs.Silence.Turns
import DemandFlow.Proofs.Silence.Vigil
import DemandFlow.Proofs.Text.Spelling
import DemandFlow.Proofs.Wake.Callers
import DemandFlow.Proofs.Wake.Leaving
import DemandFlow.Proofs.Wake.Owes
import DemandFlow.Proofs.Wake.Parting
import DemandFlow.Proofs.Wake.Run
import DemandFlow.Proofs.Wake.Seats
import DemandFlow.Proofs.Wake.Served
import DemandFlow.Pull.Body
import DemandFlow.Pull.Request
import DemandFlow.Script
import DemandFlow.Session.Consumers
import DemandFlow.Session.Run
import DemandFlow.Session.State
import DemandFlow.Session.Step
import DemandFlow.Session.Transport
import DemandFlow.Span
import DemandFlow.Subscription
import DemandFlow.Text.Blank
import DemandFlow.Text.Decimal
import DemandFlow.Text.Hidden
import DemandFlow.Text.Quoted
import DemandFlow.Tracker
